import Mips32S.Kernel.Buddy.Pmm

open dyadic Finset Bool

namespace ucore.Buddy

/-- Page `p` has been handed to the allocator as part of zone `z`. -/
structure InZone (s : Buddy) (z p : ℕ) : Prop where
  lt : p < s.npage
  reserved : (s.pages p).flags.reserved = false
  zone_num : (s.pages p).zone_num = z

/-- The pages of the block of order `k` at index `i` of zone `z`. -/
abbrev pageBlock (s : Buddy) (z k i : ℕ) : Finset ℕ := block k (s.zones z + i)

/-- The block of order `k` at index `i` is an aligned part of zone `z`. -/
structure IsBlock (s : Buddy) (z k i : ℕ) : Prop where
  order_le : k ≤ MAX_ORDER
  dvd : 2 ^ k ∣ i
  inZone : ∀ p ∈ s.pageBlock z k i, s.InZone z p

/-- The block of order `k` at index `i` of zone `z` is on its free list. -/
def IsFree (s : Buddy) (z k i : ℕ) : Prop :=
  s.zones z + i ∈ s.free_list k ∧ (s.pages (s.zones z + i)).zone_num = z

/-- The indices of the pages of zone `z` in `F`. -/
def indices (s : Buddy) (F : Finset ℕ) (z : ℕ) : Set ℕ :=
  {x | s.zones z + x ∈ F ∧ (s.pages (s.zones z + x)).zone_num = z}

theorem mem_indices {s : Buddy} {F : Finset ℕ} {z x : ℕ} :
    x ∈ s.indices F z ↔ s.zones z + x ∈ F ∧ (s.pages (s.zones z + x)).zone_num = z := Iff.rfl

theorem add_mem_pageBlock {s : Buddy} {z k i x : ℕ} :
    s.zones z + x ∈ s.pageBlock z k i ↔ x ∈ block k i := by
  simp only [mem_block]
  omega

theorem pageBlock_parent (s : Buddy) (z : ℕ) {k i : ℕ} (h : 2 ^ k ∣ i) :
    s.pageBlock z (k + 1) (parent k i) = s.pageBlock z k i ∪ s.pageBlock z k (i ^^^ 2 ^ k) := by
  ext p
  by_cases hp : s.zones z ≤ p
  · obtain ⟨x, rfl⟩ := Nat.exists_eq_add_of_le hp
    rw [mem_union, add_mem_pageBlock, add_mem_pageBlock, add_mem_pageBlock,
      block_parent h, mem_union]
  · simp only [mem_union, mem_block]
    omega

/-- The free lists describe the free pages `F`: in every zone they tile it by merged
aligned blocks, and the descriptors and counters agree with them. -/
structure Inv (s : Buddy) (F : Finset ℕ) : Prop where
  inZone : ∀ p ∈ F, s.InZone (s.pages p).zone_num p
  zone_lt : ∀ {z p}, s.InZone z p → z < s.zone_num
  base_le : ∀ {z p}, s.InZone z p → s.zones z ≤ p
  head : ∀ {k p}, p ∈ s.free_list k →
    s.InZone (s.pages p).zone_num p ∧ (s.pages p).flags.property = true ∧ (s.pages p).property = k
  linked : ∀ {z p}, s.InZone z p → (s.pages p).flags.property = true →
    p ∈ s.free_list (s.pages p).property
  nodup : ∀ k, (s.free_list k).Nodup
  count : ∀ k, s.nr_free k = (s.free_list k).length
  clean : ∀ p ∈ F, (s.pages p).owner = (0, false)
  tiling : ∀ z, Tiling MAX_ORDER (s.indices F z) (s.IsFree z)

/-- What no operation on existing zones changes. -/
structure Frame (s s' : Buddy) : Prop where
  npage : s'.npage = s.npage
  zones : s'.zones = s.zones
  zone_num : s'.zone_num = s.zone_num
  page : ∀ p, (s'.pages p).flags.reserved = (s.pages p).flags.reserved ∧
    (s'.pages p).zone_num = (s.pages p).zone_num

namespace Frame

variable {s s' s'' : Buddy} {z k i p : ℕ}

theorem refl (s : Buddy) : Frame s s := ⟨rfl, rfl, rfl, fun _ => ⟨rfl, rfl⟩⟩

variable (h : Frame s s')
include h

theorem trans (h' : Frame s' s'') : Frame s s'' where
  npage := h'.npage.trans h.npage
  zones := h'.zones.trans h.zones
  zone_num := h'.zone_num.trans h.zone_num
  page p := ⟨(h'.page p).1.trans (h.page p).1, (h'.page p).2.trans (h.page p).2⟩

theorem inZone : s'.InZone z p ↔ s.InZone z p := by
  constructor
  · rintro ⟨hlt, hres, hz⟩
    exact ⟨h.npage ▸ hlt, (h.page p).1 ▸ hres, (h.page p).2 ▸ hz⟩
  · rintro ⟨hlt, hres, hz⟩
    exact ⟨h.npage.symm ▸ hlt, (h.page p).1.trans hres, (h.page p).2.trans hz⟩

theorem pageBlock (z k i : ℕ) : s'.pageBlock z k i = s.pageBlock z k i := by
  rw [Buddy.pageBlock, h.zones]

theorem isBlock (hb : s.IsBlock z k i) : s'.IsBlock z k i where
  order_le := hb.order_le
  dvd := hb.dvd
  inZone p hp := h.inZone.mpr (hb.inZone p (h.pageBlock z k i ▸ hp))

theorem indices (F : Finset ℕ) : s'.indices F z = s.indices F z := by
  ext x
  simp [Buddy.indices, h.zones, (h.page _).2]

end Frame

section
variable {k' : ℕ} (s : Buddy) (k p q : ℕ)

theorem frame_link : Frame s (s.link k p) where
  npage := rfl
  zones := rfl
  zone_num := rfl
  page q := by
    by_cases hq : q = p
    · subst hq
      simp [link, setPage]
    · simp [link, setPage, hq]

theorem frame_unlink : Frame s ((s.unlink k p).ClearPageProperty p) where
  npage := rfl
  zones := rfl
  zone_num := rfl
  page q := by
    by_cases hq : q = p
    · subst hq
      simp [unlink, ClearPageProperty, setPage]
    · simp [unlink, ClearPageProperty, setPage, hq]

theorem mem_link : q ∈ (s.link k p).free_list k' ↔ (k' = k ∧ q = p) ∨ q ∈ s.free_list k' := by
  by_cases hk : k' = k
  · subst hk
    simp [link]
  · simp [link, hk]

theorem mem_unlink (hnd : (s.free_list k).Nodup) :
    q ∈ ((s.unlink k p).ClearPageProperty p).free_list k' ↔
      ¬ (k' = k ∧ q = p) ∧ q ∈ s.free_list k' := by
  by_cases hk : k' = k
  · subst hk
    simp [unlink, ClearPageProperty, setPage, hnd.mem_erase_iff]
  · simp [unlink, ClearPageProperty, setPage, hk]

theorem pages_link_of_ne (h : q ≠ p) : (s.link k p).pages q = s.pages q := by
  simp [link, setPage, h]

theorem pages_unlink_of_ne (h : q ≠ p) :
    ((s.unlink k p).ClearPageProperty p).pages q = s.pages q := by
  simp [unlink, ClearPageProperty, setPage, h]

@[simp]
theorem owner_link : ((s.link k p).pages q).owner = (s.pages q).owner := by
  by_cases hq : q = p
  · subst hq
    simp [link, setPage, Page.owner]
  · rw [pages_link_of_ne s k p q hq]

@[simp]
theorem owner_unlink :
    (((s.unlink k p).ClearPageProperty p).pages q).owner = (s.pages q).owner := by
  by_cases hq : q = p
  · subst hq
    simp [unlink, ClearPageProperty, setPage, Page.owner]
  · rw [pages_unlink_of_ne s k p q hq]

theorem clearPageProperty_link (h : p ≠ q) :
    (s.link k q).ClearPageProperty p = (s.ClearPageProperty p).link k q := by
  simp [link, ClearPageProperty, setPage, Function.update_comm h, h, h.symm]

end

namespace Inv

variable {s s' : Buddy} {F : Finset ℕ} {z k i p : ℕ}

section
variable (h : Inv s F)
include h

/-- The invariant reads the reserved and property bits, the order and the zone of a page. -/
theorem congr (hfr : Frame s s') (hlist : s'.free_list = s.free_list) (hnr : s'.nr_free = s.nr_free)
    (hpage : ∀ p, (s'.pages p).flags.property = (s.pages p).flags.property ∧
      (s'.pages p).property = (s.pages p).property)
    (hown : ∀ p ∈ F, (s'.pages p).owner = (s.pages p).owner) : Inv s' F where
  inZone p hp := by
    rw [(hfr.page p).2, hfr.inZone]
    exact h.inZone p hp
  zone_lt hp := by
    rw [hfr.zone_num]
    exact h.zone_lt (hfr.inZone.mp hp)
  base_le hp := by
    rw [hfr.zones]
    exact h.base_le (hfr.inZone.mp hp)
  head hp := by
    rw [hlist] at hp
    rw [(hfr.page _).2, hfr.inZone, (hpage _).1, (hpage _).2]
    exact h.head hp
  linked hp hprop := by
    rw [hlist, (hpage _).2]
    exact h.linked (hfr.inZone.mp hp) ((hpage _).1 ▸ hprop)
  nodup k := hlist ▸ h.nodup k
  count k := by rw [hnr, hlist, h.count]
  clean p hp := (hown p hp).trans (h.clean p hp)
  tiling z := by
    have hfree : s'.IsFree z = s.IsFree z := by
      funext k i
      simp [IsFree, hlist, hfr.zones, (hfr.page _).2]
    rw [hfr.indices, hfree]
    exact h.tiling z

theorem mem_of_isFree (hf : s.IsFree z k i) (hp : p ∈ s.pageBlock z k i) :
    p ∈ F ∧ (s.pages p).zone_num = z := by
  obtain ⟨x, rfl⟩ : ∃ x, p = s.zones z + x := ⟨p - s.zones z, by rw [mem_block] at hp; omega⟩
  exact (h.tiling z).mem hf (add_mem_pageBlock.mp hp)

theorem isBlock (hf : s.IsFree z k i) : s.IsBlock z k i where
  order_le := (h.tiling z).order_le hf
  dvd := (h.tiling z).dvd hf
  inZone p hp := by
    obtain ⟨hF, hz⟩ := h.mem_of_isFree hf hp
    exact hz ▸ h.inZone p hF

theorem isFree_of_mem (hp : p ∈ s.free_list k) :
    s.IsFree (s.pages p).zone_num k (p - s.zones (s.pages p).zone_num) := by
  have hle := h.base_le (h.head hp).1
  rw [IsFree, Nat.add_sub_cancel' hle]
  exact ⟨hp, rfl⟩

theorem not_property (hz : s.InZone z p) (hF : p ∉ F) : (s.pages p).flags.property = false := by
  by_contra hprop
  have hf := h.isFree_of_mem (h.linked hz (by simpa using hprop))
  apply hF
  refine (h.mem_of_isFree hf ?_).1
  have hle := h.base_le hz
  rw [← hz.zone_num] at hle
  rw [pageBlock, Nat.add_sub_cancel' hle]
  exact self_mem_block _ _

theorem page_is_buddy_iff : page_is_buddy s (idx2page s z i) k z = true ↔ s.IsFree z k i := by
  unfold page_is_buddy idx2page
  constructor
  · intro hb
    split at hb <;> try contradiction
    split at hb <;> try contradiction
    simp only [and_eq_true, not_eq_true', beq_iff_eq] at hb
    obtain ⟨⟨hres, hprop⟩, rfl⟩ := hb
    rename_i hlt hz
    exact ⟨h.linked ⟨hlt, hres, hz⟩ hprop, hz⟩
  · rintro ⟨hmem, hz⟩
    obtain ⟨⟨hlt, hres, -⟩, hprop, hk⟩ := h.head hmem
    simp [hlt, hz, hres, hprop, hk]

end

theorem indices_union (hb : s.IsBlock z k i) (z' : ℕ) :
    s.indices (F ∪ s.pageBlock z k i) z' =
      if z' = z then s.indices F z ∪ block k i else s.indices F z' := by
  ext x
  by_cases hz : z' = z
  · subst hz
    rw [if_pos rfl, Set.mem_union, mem_indices, mem_indices, mem_union, add_mem_pageBlock, mem_coe]
    constructor
    · rintro ⟨hF | hx, hzone⟩
      · exact .inl ⟨hF, hzone⟩
      · exact .inr hx
    · rintro (⟨hF, hzone⟩ | hx)
      · exact ⟨.inl hF, hzone⟩
      · exact ⟨.inr hx, (hb.inZone _ (add_mem_pageBlock.mpr hx)).zone_num⟩
  · rw [if_neg hz, mem_indices, mem_indices, mem_union]
    constructor
    · rintro ⟨hF | hx, hzone⟩
      · exact ⟨hF, hzone⟩
      · exact absurd (hzone.symm.trans (hb.inZone _ hx).zone_num) hz
    · rintro ⟨hF, hzone⟩
      exact ⟨.inl hF, hzone⟩

theorem indices_sdiff (hb : s.IsBlock z k i) (z' : ℕ) :
    s.indices (F \ s.pageBlock z k i) z' =
      if z' = z then s.indices F z \ block k i else s.indices F z' := by
  ext x
  by_cases hz : z' = z
  · subst hz
    rw [if_pos rfl, Set.mem_sdiff, mem_indices, mem_indices, mem_sdiff, add_mem_pageBlock, mem_coe]
    tauto
  · rw [if_neg hz, mem_indices, mem_indices, mem_sdiff]
    constructor
    · rintro ⟨⟨hF, -⟩, hzone⟩
      exact ⟨hF, hzone⟩
    · rintro ⟨hF, hzone⟩
      refine ⟨⟨hF, fun hx => hz ?_⟩, hzone⟩
      exact hzone.symm.trans (hb.inZone _ hx).zone_num

theorem not_mem_free_list (h : Inv s F) (hp : p ∉ F) (k : ℕ) : p ∉ s.free_list k := by
  intro hmem
  obtain ⟨hz, hprop, -⟩ := h.head hmem
  have hnp := h.not_property hz hp
  rw [hnp] at hprop
  contradiction

theorem isFree_link (hz : (s.pages (s.zones z + i)).zone_num = z) (z' k' i' : ℕ) :
    (s.link k (s.zones z + i)).IsFree z' k' i' ↔
      (z' = z ∧ k' = k ∧ i' = i) ∨ s.IsFree z' k' i' := by
  have hfr := frame_link s k (s.zones z + i)
  rw [IsFree, (hfr.page _).2, hfr.zones, mem_link]
  constructor
  · rintro ⟨⟨rfl, hp⟩ | hmem, hzone⟩
    · rw [hp, hz] at hzone
      subst hzone
      exact .inl ⟨rfl, rfl, by omega⟩
    · exact .inr ⟨hmem, hzone⟩
  · rintro (⟨rfl, rfl, rfl⟩ | ⟨hmem, hzone⟩)
    · exact ⟨.inl ⟨rfl, rfl⟩, hz⟩
    · exact ⟨.inr hmem, hzone⟩

theorem isFree_unlink (hnd : (s.free_list k).Nodup)
    (hz : (s.pages (s.zones z + i)).zone_num = z) (z' k' i' : ℕ) :
    ((s.unlink k (s.zones z + i)).ClearPageProperty (s.zones z + i)).IsFree z' k' i' ↔
      ¬ (z' = z ∧ k' = k ∧ i' = i) ∧ s.IsFree z' k' i' := by
  have hfr := frame_unlink s k (s.zones z + i)
  rw [IsFree, (hfr.page _).2, hfr.zones, mem_unlink _ _ _ _ hnd]
  constructor
  · rintro ⟨⟨hne, hmem⟩, hzone⟩
    refine ⟨?_, hmem, hzone⟩
    rintro ⟨rfl, rfl, rfl⟩
    exact hne ⟨rfl, rfl⟩
  · rintro ⟨hne, hmem, hzone⟩
    refine ⟨⟨?_, hmem⟩, hzone⟩
    rintro ⟨rfl, hp⟩
    rw [hp, hz] at hzone
    subst hzone
    exact hne ⟨rfl, rfl, by omega⟩

end Inv

/-- Beside the free pages `F`, the operation under way holds the block of order `k` at index
`i` of zone `z`, whose pages are cleared. -/
structure Holds (s : Buddy) (F : Finset ℕ) (z k i : ℕ) : Prop where
  inv : Inv s F
  block : s.IsBlock z k i
  not_mem : ∀ p ∈ s.pageBlock z k i, p ∉ F
  clean : ∀ p ∈ s.pageBlock z k i, (s.pages p).owner = (0, false)

namespace Inv

variable {s s' : Buddy} {F : Finset ℕ} {z k i p : ℕ}

theorem link (hold : Holds s F z k i) (hbud : k < MAX_ORDER → ¬ s.IsFree z k (i ^^^ 2 ^ k)) :
    Inv (s.link k (s.zones z + i)) (F ∪ s.pageBlock z k i) := by
  obtain ⟨h, hb, hF, hown⟩ := hold
  have hfr := frame_link s k (s.zones z + i)
  have hself : s.zones z + i ∈ s.pageBlock z k i := self_mem_block _ _
  have hnew := hb.inZone _ hself
  have hnot := h.not_mem_free_list (hF _ hself)
  refine ⟨?_, ?_, ?_, ?_, ?_, ?_, ?_, ?_, ?_⟩
  · intro p hp
    rw [(hfr.page p).2, hfr.inZone]
    rcases mem_union.mp hp with hp | hp
    · exact h.inZone p hp
    · exact (hb.inZone p hp).zone_num.symm ▸ hb.inZone p hp
  · intro z' p hp
    exact h.zone_lt (hfr.inZone.mp hp)
  · intro z' p hp
    exact h.base_le (hfr.inZone.mp hp)
  · intro j p hp
    rw [(hfr.page p).2, hfr.inZone]
    rcases (mem_link _ _ _ _).mp hp with ⟨rfl, rfl⟩ | hp
    · rw [hnew.zone_num]
      exact ⟨hnew, by simp [Buddy.link, setPage], by simp [Buddy.link, setPage]⟩
    · have hne : p ≠ s.zones z + i := fun heq => hnot j (heq ▸ hp)
      rw [pages_link_of_ne _ _ _ _ hne]
      exact h.head hp
  · intro z' p hp hprop
    rw [mem_link]
    by_cases heq : p = s.zones z + i
    · subst heq
      exact .inl ⟨by simp [Buddy.link, setPage], rfl⟩
    · rw [pages_link_of_ne _ _ _ _ heq] at hprop ⊢
      exact .inr (h.linked (hfr.inZone.mp hp) hprop)
  · intro j
    by_cases hj : j = k
    · subst hj
      simpa [Buddy.link] using ⟨hnot j, h.nodup j⟩
    · simpa [Buddy.link, hj] using h.nodup j
  · intro j
    by_cases hj : j = k
    · subst hj
      simp [Buddy.link, h.count]
    · simp [Buddy.link, hj, h.count]
  · intro p hp
    rw [owner_link]
    rcases mem_union.mp hp with hp | hp
    · exact h.clean p hp
    · exact hown p hp
  · intro z'
    rw [hfr.indices, indices_union hb]
    have hiff := isFree_link (k := k) hnew.zone_num z'
    by_cases hz : z' = z
    · subst hz
      rw [if_pos rfl]
      have hpages : ∀ x ∈ block k i, x ∉ s.indices F z' := fun x hx hxF =>
        hF _ (add_mem_pageBlock.mpr hx) hxF.1
      convert (h.tiling z').insert hb.order_le hb.dvd hpages hbud using 1
      funext j x
      simpa using hiff j x
    · rw [if_neg hz]
      convert h.tiling z' using 1
      funext j x
      simpa [hz] using hiff j x

theorem unlink (h : Inv s F) (hf : s.IsFree z k i) :
    Inv ((s.unlink k (s.zones z + i)).ClearPageProperty (s.zones z + i))
      (F \ s.pageBlock z k i) := by
  have hfr := frame_unlink s k (s.zones z + i)
  have hb := h.isBlock hf
  have hhead := h.head hf.1
  refine ⟨?_, ?_, ?_, ?_, ?_, ?_, ?_, ?_, ?_⟩
  · intro p hp
    rw [(hfr.page p).2, hfr.inZone]
    exact h.inZone p (mem_sdiff.mp hp).1
  · intro z' p hp
    exact h.zone_lt (hfr.inZone.mp hp)
  · intro z' p hp
    exact h.base_le (hfr.inZone.mp hp)
  · intro j p hp
    obtain ⟨hne, hmem⟩ := (mem_unlink _ _ _ _ (h.nodup k)).mp hp
    have hp' : p ≠ s.zones z + i := by
      rintro rfl
      exact hne ⟨(h.head hmem).2.2.symm.trans hhead.2.2, rfl⟩
    rw [hfr.inZone, pages_unlink_of_ne _ _ _ _ hp']
    exact h.head hmem
  · intro z' p hp hprop
    by_cases heq : p = s.zones z + i
    · subst heq
      simp [ClearPageProperty, setPage] at hprop
    · rw [pages_unlink_of_ne _ _ _ _ heq] at hprop ⊢
      rw [mem_unlink _ _ _ _ (h.nodup k)]
      exact ⟨fun hc => heq hc.2, h.linked (hfr.inZone.mp hp) hprop⟩
  · intro j
    by_cases hj : j = k
    · subst hj
      simpa [Buddy.unlink, ClearPageProperty, setPage] using (h.nodup j).erase _
    · simpa [Buddy.unlink, ClearPageProperty, setPage, hj] using h.nodup j
  · intro j
    by_cases hj : j = k
    · subst hj
      simp [Buddy.unlink, ClearPageProperty, setPage, h.count, List.length_erase_of_mem hf.1]
    · simp [Buddy.unlink, ClearPageProperty, setPage, hj, h.count]
  · intro p hp
    rw [owner_unlink]
    exact h.clean p (mem_sdiff.mp hp).1
  · intro z'
    rw [hfr.indices, indices_sdiff hb]
    have hiff := isFree_unlink (h.nodup k) hf.2 z'
    by_cases hz : z' = z
    · subst hz
      rw [if_pos rfl]
      convert (h.tiling z').erase hf using 1
      funext j x
      simpa using hiff j x
    · rw [if_neg hz]
      convert h.tiling z' using 1
      funext j x
      simpa [hz] using hiff j x

end Inv

end ucore.Buddy
