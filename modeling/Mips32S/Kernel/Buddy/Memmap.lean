import Mips32S.Kernel.Buddy.Free

open dyadic Finset

namespace ucore

namespace Buddy

variable {s : Buddy} {F : Finset ℕ} {z k i n base p : ℕ}

/-- While a zone is being set up, its pages from index `i` on are cleared and not yet free,
and every free page of the zone lies before them. -/
structure Fresh (s : Buddy) (F : Finset ℕ) (z i n : ℕ) : Prop where
  inv : Inv s F
  taken : s.Taken F z i n
  clean : ∀ p ∈ Ico (s.zones z + i) (s.zones z + i + n), (s.pages p).owner = (0, false)
  lt : ∀ p ∈ F, (s.pages p).zone_num = z → p < s.zones z + i

theorem Fresh.link (h : Fresh s F z i n) (hk : k ≤ MAX_ORDER) (hi : 2 ^ k ∣ i) (hn : 2 ^ k ≤ n)
    (hlow : k < MAX_ORDER → 2 ^ (k + 1) ∣ i) :
    Fresh (s.link k (s.zones z + i)) (F ∪ s.pageBlock z k i) z (i + 2 ^ k) (n - 2 ^ k) := by
  have hfr := frame_link s k (s.zones z + i)
  have hsub : ∀ p ∈ s.pageBlock z k i, p ∈ Ico (s.zones z + i) (s.zones z + i + n) := by
    intro p hp
    rw [mem_block] at hp
    rw [mem_Ico]
    omega
  have hhold : Holds s F z k i :=
    { inv := h.inv
      block := ⟨hk, hi, fun p hp => (h.taken p (hsub p hp)).1⟩
      not_mem := fun p hp => (h.taken p (hsub p hp)).2
      clean := fun p hp => h.clean p (hsub p hp) }
  have hrest : ∀ p ∈ Ico ((s.link k (s.zones z + i)).zones z + (i + 2 ^ k))
      ((s.link k (s.zones z + i)).zones z + (i + 2 ^ k) + (n - 2 ^ k)),
      p ∈ Ico (s.zones z + i) (s.zones z + i + n) ∧ p ∉ s.pageBlock z k i := by
    intro p hp
    rw [hfr.zones, mem_Ico] at hp
    rw [mem_Ico, mem_block]
    omega
  refine ⟨Inv.link hhold fun hlt hf => ?_, ?_, ?_, ?_⟩
  · -- The buddy of the lower half lies behind it, where no page is free.
    rw [xor_of_dvd (hlow hlt)] at hf
    obtain ⟨hmem, hz⟩ := h.inv.mem_of_isFree hf (self_mem_block _ _)
    have := h.lt _ hmem hz
    omega
  · intro p hp
    obtain ⟨hp, hnot⟩ := hrest p hp
    refine ⟨hfr.inZone.mpr (h.taken p hp).1, ?_⟩
    rw [mem_union]
    rintro (hF | hb)
    · exact (h.taken p hp).2 hF
    · exact hnot hb
  · intro p hp
    rw [owner_link]
    exact h.clean p (hrest p hp).1
  · intro p hp hz
    rw [(hfr.page p).2] at hz
    rw [hfr.zones]
    rcases mem_union.mp hp with hp | hp
    · have := h.lt p hp hz
      omega
    · rw [mem_block] at hp
      omega

section
variable (h : Fresh s F z i n) (hk : k ≤ MAX_ORDER) (hi : 2 ^ k ∣ i)
  (hlow : k < MAX_ORDER → n < 2 ^ k ∨ 2 ^ (k + 1) ∣ i ∧ n < 2 ^ (k + 1))
include h hk hi hlow

/-- The inner loop links blocks of one order; below the largest order there is room for at
most one, which is then the lower half of its pair. -/
theorem initBlocks_spec :
    ∃ s' i' n', initBlocks k s (s.zones z + i) n = (s', s.zones z + i', n') ∧
      i ≤ i' ∧ i' + n' = i + n ∧ n' < 2 ^ k ∧ 2 ^ k ∣ i' ∧ Frame s s' ∧
      Fresh s' (F ∪ Ico (s.zones z + i) (s.zones z + i')) z i' n' := by
  generalize hp : s.zones z + i = p
  fun_induction initBlocks k s p n generalizing F i with
  | case1 s p n hkn =>
    rename_i ih
    subst hp
    have hzones := (frame_link s k (s.zones z + i)).zones
    have hlow' : k < MAX_ORDER → 2 ^ (k + 1) ∣ i ∧ n < 2 ^ (k + 1) := fun hlt =>
      (hlow hlt).resolve_left (by omega)
    obtain ⟨s', i', n', heq, hle, hsum, hlt, hdvd, hfr, hfresh⟩ :=
      ih (h.link hk hi hkn fun hlt => (hlow' hlt).1) (Nat.dvd_add hi (Nat.dvd_refl _))
        (fun hlt => by
          have := (hlow' hlt).2
          omega)
        (by rw [hzones]; omega)
    refine ⟨s', i', n', heq, by omega, by omega, hlt, hdvd, (frame_link ..).trans hfr, ?_⟩
    rw [union_assoc, ← pageBlock_union_Ico hle] at *
    exact hfresh
  | case2 s p n hkn =>
    subst hp
    refine ⟨s, i, n, rfl, le_refl _, rfl, by omega, hi, Frame.refl s, ?_⟩
    simpa using h

theorem initOrders_spec :
    Inv (initOrders k s (s.zones z + i) n) (F ∪ Ico (s.zones z + i) (s.zones z + i + n)) ∧
    Frame s (initOrders k s (s.zones z + i) n) := by
  induction k generalizing s F i n with
  | zero =>
    obtain ⟨s', i', n', heq, hle, hsum, hlt, -, hfr, hfresh⟩ := initBlocks_spec h hk hi hlow
    obtain rfl : n' = 0 := by simpa using hlt
    obtain rfl : i' = i + n := by omega
    rw [initOrders, heq]
    exact ⟨by simpa [Nat.add_assoc] using hfresh.inv, hfr⟩
  | succ k ih =>
    by_cases hn : n = 0
    · subst hn
      exact ⟨by simpa [initOrders] using h.inv, by simpa [initOrders] using Frame.refl s⟩
    obtain ⟨s', i', n', heq, hle, hsum, hlt, hdvd, hfr, hfresh⟩ := initBlocks_spec h hk hi hlow
    obtain ⟨hinv, hfr'⟩ := ih hfresh (by omega)
      ((Nat.pow_dvd_pow 2 (Nat.le_succ k)).trans hdvd) fun _ => .inr ⟨hdvd, hlt⟩
    rw [hfr.zones] at hinv hfr'
    rw [initOrders, if_neg hn, heq]
    refine ⟨?_, hfr.trans hfr'⟩
    have hunion := Ico_union_Ico_eq_Ico (show s.zones z + i ≤ s.zones z + i' by omega)
      (show s.zones z + i' ≤ s.zones z + i' + n' by omega)
    rwa [union_assoc, hunion, show s.zones z + i' + n' = s.zones z + i + n by omega] at hinv

end

/-- The new zone of `n` pages from `base`, with no page free yet. -/
def addZone (s : Buddy) (base n : ℕ) : Buddy :=
  { s with
    pages := fun p =>
      if base ≤ p ∧ p < base + n then
        { s.pages p with flags := .zero, property := 0, zone_num := s.zone_num, ref := 0 }
      else s.pages p
    zones := Function.update s.zones s.zone_num base
    zone_num := s.zone_num + 1 }

variable (hres : ∀ p, base ≤ p → p < base + n → (s.pages p).flags.reserved = true)
include hres

theorem inZone_addZone (hle : base + n ≤ s.npage) :
    (s.addZone base n).InZone z p ↔
      (z = s.zone_num ∧ base ≤ p ∧ p < base + n) ∨ s.InZone z p := by
  by_cases hp : base ≤ p ∧ p < base + n
  · have hnot : ¬ s.InZone z p := fun hz => by
      have := hres p hp.1 hp.2
      rw [hz.reserved] at this
      contradiction
    have hlt : p < s.npage := by omega
    constructor
    · rintro ⟨-, -, hz⟩
      simp only [addZone, hp, and_self, if_true] at hz
      exact .inl ⟨hz.symm, hp⟩
    · rintro (⟨rfl, -⟩ | hz)
      · exact ⟨hlt, by simp [addZone, hp, PageFlags.zero], by simp [addZone, hp]⟩
      · exact absurd hz hnot
  · have hpage : (s.addZone base n).pages p = s.pages p := by simp [addZone, hp]
    constructor
    · rintro ⟨hlt, hr, hz⟩
      rw [hpage] at hr hz
      exact .inr ⟨hlt, hr, hz⟩
    · rintro (⟨-, hp'⟩ | ⟨hlt, hr, hz⟩)
      · exact absurd hp' hp
      · exact ⟨hlt, hpage ▸ hr, hpage ▸ hz⟩

theorem pages_addZone (hp : s.InZone z p) : (s.addZone base n).pages p = s.pages p := by
  have hout : ¬ (base ≤ p ∧ p < base + n) := fun hin => by
    have := hres p hin.1 hin.2
    rw [hp.reserved] at this
    contradiction
  simp [addZone, hout]

omit hres in
theorem zones_addZone (h : z ≠ s.zone_num) : (s.addZone base n).zones z = s.zones z := by
  simp [addZone, h]

theorem listed_addZone (h : Inv s F) {P : ℕ → Prop}
    (hP : ∀ p, P p → s.InZone (s.pages p).zone_num p) :
    P ((s.addZone base n).zones z + i) ∧
        ((s.addZone base n).pages ((s.addZone base n).zones z + i)).zone_num = z ↔
      z ≠ s.zone_num ∧ P (s.zones z + i) ∧ (s.pages (s.zones z + i)).zone_num = z := by
  constructor
  · rintro ⟨hmem, hzone⟩
    have hz := hP _ hmem
    rw [pages_addZone hres hz] at hzone
    have hne : z ≠ s.zone_num := by
      have := h.zone_lt hz
      omega
    rw [zones_addZone hne] at hmem hzone
    exact ⟨hne, hmem, hzone⟩
  · rintro ⟨hne, hmem, hzone⟩
    rw [zones_addZone hne, pages_addZone hres (hP _ hmem)]
    exact ⟨hmem, hzone⟩

theorem tiling_addZone (h : Inv s F) (z : ℕ) :
    Tiling MAX_ORDER ((s.addZone base n).indices F z) ((s.addZone base n).IsFree z) := by
  have hpage : ∀ x, x ∈ (s.addZone base n).indices F z ↔ z ≠ s.zone_num ∧ x ∈ s.indices F z :=
    fun _ => listed_addZone hres h h.inZone
  have hfree : ∀ k i, (s.addZone base n).IsFree z k i ↔ z ≠ s.zone_num ∧ s.IsFree z k i :=
    fun _ _ => listed_addZone hres h fun _ hp => (h.head hp).1
  rcases eq_or_ne z s.zone_num with rfl | hz
  · convert Tiling.empty MAX_ORDER using 1
    · ext x
      simp [hpage]
    · funext k i
      simp [hfree]
  · convert h.tiling z using 1
    · ext x
      simp [hpage, hz]
    · funext k i
      simp [hfree, hz]

theorem Inv.addZone (h : Inv s F) (hle : base + n ≤ s.npage) : Inv (s.addZone base n) F where
  inZone p hp := by
    have hz := h.inZone p hp
    rw [pages_addZone hres hz]
    exact (inZone_addZone hres hle).mpr (.inr hz)
  zone_lt hp := by
    change _ < s.zone_num + 1
    rcases (inZone_addZone hres hle).mp hp with ⟨rfl, -⟩ | hz
    · omega
    · have := h.zone_lt hz
      omega
  base_le hp := by
    rcases (inZone_addZone hres hle).mp hp with ⟨rfl, hp, -⟩ | hz
    · simpa [Buddy.addZone] using hp
    · rw [zones_addZone (by have := h.zone_lt hz; omega)]
      exact h.base_le hz
  head hp := by
    obtain ⟨hz, hprop⟩ := h.head hp
    rw [pages_addZone hres hz]
    exact ⟨(inZone_addZone hres hle).mpr (.inr hz), hprop⟩
  linked hp hprop := by
    rcases (inZone_addZone hres hle).mp hp with ⟨-, hin⟩ | hz
    · simp [Buddy.addZone, hin, PageFlags.zero] at hprop
    · rw [pages_addZone hres hz] at hprop ⊢
      exact h.linked hz hprop
  nodup := h.nodup
  count := h.count
  clean p hp := by
    rw [pages_addZone hres (h.inZone p hp)]
    exact h.clean p hp
  tiling := tiling_addZone hres h

theorem Inv.fresh (h : Inv s F) (hle : base + n ≤ s.npage) :
    Fresh (s.addZone base n) F s.zone_num 0 n := by
  have hbase : (s.addZone base n).zones s.zone_num + 0 = base := by simp [Buddy.addZone]
  refine ⟨h.addZone hres hle, ?_, ?_, ?_⟩
  · intro p hp
    rw [hbase, mem_Ico] at hp
    refine ⟨(inZone_addZone hres hle).mpr (.inl ⟨rfl, hp⟩), fun hF => ?_⟩
    have := hres p hp.1 hp.2
    rw [(h.inZone p hF).reserved] at this
    contradiction
  · intro p hp
    rw [hbase, mem_Ico] at hp
    simp [Buddy.addZone, hp, Page.owner, PageFlags.zero]
  · intro p hp hz
    rw [pages_addZone hres (h.inZone p hp)] at hz
    have := h.zone_lt (h.inZone p hp)
    omega

end Buddy

open Buddy
variable {s : Buddy} {F : Finset ℕ} {z base n : ℕ}

/-- Setting up a zone on reserved pages: no assertion fails and the pages become free. -/
theorem buddy_init_memmap_spec (h : Inv s F) (hn : 0 < n) (hzone : s.zone_num < MAX_ZONE_NUM)
    (hle : base + n ≤ s.npage)
    (hres : ∀ p, base ≤ p → p < base + n → (s.pages p).flags.reserved = true) :
    ∃ s', buddy_init_memmap base n s = some s' ∧ Inv s' (F ∪ Ico base (base + n)) ∧
      Frame (s.addZone base n) s' := by
  have hsweep := sweep_eq (fun x => x.flags.reserved)
    (fun x => { x with flags := .zero, property := 0, zone_num := s.zone_num, ref := 0 }) hres
  have hbase : (s.addZone base n).zones s.zone_num + 0 = base := by simp [addZone]
  obtain ⟨hinv, hfr⟩ := initOrders_spec (h.fresh hres hle) (le_refl MAX_ORDER)
    (Nat.dvd_zero _) fun hlt => absurd hlt (lt_irrefl _)
  rw [hbase] at hinv hfr
  refine ⟨_, ?_, hinv, hfr⟩
  simp only [buddy_init_memmap, hn, hzone, and_self, guard_true, hsweep]
  rfl

end ucore
