import Mips32S.Kernel.Buddy.Invariant

open dyadic Finset

namespace ucore

namespace Buddy

theorem sweep_eq (ok : Page → Bool) (f : Page → Page) {n base : ℕ} {s : Buddy}
    (hok : ∀ p, base ≤ p → p < base + n → ok (s.pages p) = true) :
    s.sweep ok f n base = some { s with
      pages := fun p => if base ≤ p ∧ p < base + n then f (s.pages p) else s.pages p } := by
  induction n generalizing base s with
  | zero =>
    have : ∀ p, ¬ (base ≤ p ∧ p < base) := by omega
    simp [sweep, this]
  | succ n ih =>
    rw [sweep, if_pos (hok base (le_refl _) (by omega)), ih]
    · congr 2
      funext p
      by_cases hp : p = base
      · subst hp
        simp [setPage]
      · have hiff : base + 1 ≤ p ∧ p < base + 1 + n ↔ base ≤ p ∧ p < base + (n + 1) := by omega
        have hpage : (s.setPage base f).pages p = s.pages p := by simp [setPage, hp]
        simp only [hpage, hiff]
    · intro p hlo hhi
      have hne : p ≠ base := by omega
      simpa [setPage, hne] using hok p (by omega) (by omega)

/-- The `n` descriptors from `base` without flags and references. -/
def clear (s : Buddy) (base n : ℕ) : Buddy :=
  { s with pages := fun p =>
      if base ≤ p ∧ p < base + n then { s.pages p with flags := .zero, ref := 0 }
      else s.pages p }

theorem Inv.clear {s : Buddy} {F : Finset ℕ} {z k i : ℕ} (h : Inv s F) (hb : s.IsBlock z k i)
    (hF : ∀ p ∈ s.pageBlock z k i, p ∉ F) :
    Holds (s.clear (s.zones z + i) (2 ^ k)) F z k i ∧ Frame s (s.clear (s.zones z + i) (2 ^ k)) ∧
      ∀ p, ((s.clear (s.zones z + i) (2 ^ k)).pages p).owner =
        if p ∈ s.pageBlock z k i then (0, false) else (s.pages p).owner := by
  have hpages : ∀ p, (s.clear (s.zones z + i) (2 ^ k)).pages p =
      if p ∈ s.pageBlock z k i then { s.pages p with flags := .zero, ref := 0 }
      else s.pages p := by
    intro p
    simp [Buddy.clear]
  have hfr : Frame s (s.clear (s.zones z + i) (2 ^ k)) := by
    refine ⟨rfl, rfl, rfl, fun p => ?_⟩
    rw [hpages]
    split
    · rename_i hp
      exact ⟨(hb.inZone p hp).reserved.symm, rfl⟩
    · exact ⟨rfl, rfl⟩
  have hown : ∀ p, ((s.clear (s.zones z + i) (2 ^ k)).pages p).owner =
      if p ∈ s.pageBlock z k i then (0, false) else (s.pages p).owner := by
    intro p
    rw [hpages]
    split <;> rfl
  refine ⟨⟨h.congr hfr rfl rfl (fun p => ?_) (fun p hp => ?_), hfr.isBlock hb, hF, ?_⟩, hfr, hown⟩
  · rw [hpages]
    split
    · rename_i hp
      exact ⟨(h.not_property (hb.inZone p hp) (hF p hp)).symm, rfl⟩
    · exact ⟨rfl, rfl⟩
  · rw [hown, if_neg fun hp' => hF p hp' hp]
  · intro p hp
    rw [hown, if_pos (hfr.pageBlock z k i ▸ hp)]

/-- The pages `R` have been given back: they have joined the free pages, cleared, and
nothing else has changed hands. -/
structure Freed (s : Buddy) (F R : Finset ℕ) (s' : Buddy) : Prop where
  inv : Inv s' (F ∪ R)
  frame : Frame s s'
  owner : ∀ p, (s'.pages p).owner = if p ∈ R then (0, false) else (s.pages p).owner

theorem Freed.refl {s : Buddy} {F : Finset ℕ} (h : Inv s F) : Freed s F ∅ s :=
  ⟨by simpa using h, Frame.refl s, by simp⟩

theorem Freed.trans {s s' s'' : Buddy} {F R R' : Finset ℕ} (h : Freed s F R s')
    (h' : Freed s' (F ∪ R) R' s'') : Freed s F (R ∪ R') s'' where
  inv := by
    rw [← union_assoc]
    exact h'.inv
  frame := h.frame.trans h'.frame
  owner p := by
    rw [h'.owner, h.owner]
    by_cases hR : p ∈ R <;> by_cases hR' : p ∈ R' <;> simp [hR, hR']

variable {s : Buddy} {F : Finset ℕ} {z k i : ℕ}

theorem Holds.merge (h : Holds s F z k i) (hk : k < MAX_ORDER) (hf : s.IsFree z k (i ^^^ 2 ^ k)) :
    Holds ((s.unlink k (s.zones z + (i ^^^ 2 ^ k))).ClearPageProperty (s.zones z + (i ^^^ 2 ^ k)))
      (F \ s.pageBlock z k (i ^^^ 2 ^ k)) z (k + 1) (i &&& (i ^^^ 2 ^ k)) := by
  have hdvd := h.block.dvd
  have hpair := s.pageBlock_parent z hdvd
  have hfr := frame_unlink s k (s.zones z + (i ^^^ 2 ^ k))
  have hbuddy := h.inv.isBlock hf
  refine ⟨h.inv.unlink hf, hfr.isBlock ⟨hk, dvd_parent hdvd, ?_⟩, ?_, ?_⟩
  · intro p hp
    rcases mem_union.mp (hpair ▸ hp) with hp | hp
    · exact h.block.inZone p hp
    · exact hbuddy.inZone p hp
  · intro p hp
    rw [mem_sdiff]
    rintro ⟨hF, hnot⟩
    rcases mem_union.mp (hpair ▸ hp) with hp | hp
    · exact h.not_mem p hp hF
    · exact hnot hp
  · intro p hp
    rw [owner_unlink]
    rcases mem_union.mp (hpair ▸ hp) with hp | hp
    · exact h.clean p hp
    · exact h.inv.clean p (h.inv.mem_of_isFree hf hp).1

theorem Holds.merge_cover (h : Holds s F z k i) (hf : s.IsFree z k (i ^^^ 2 ^ k)) :
    F \ s.pageBlock z k (i ^^^ 2 ^ k) ∪ s.pageBlock z (k + 1) (parent k i) =
      F ∪ s.pageBlock z k i := by
  have hsub : s.pageBlock z k (i ^^^ 2 ^ k) ⊆ F := fun p hp => (h.inv.mem_of_isFree hf hp).1
  rw [s.pageBlock_parent z h.block.dvd, union_comm (s.pageBlock z k i),
    ← union_assoc, sdiff_union_of_subset hsub]

/-- The merging loop ends with a block that covers the one it started from and has no free
buddy. -/
theorem mergeUp_spec (h : Holds s F z k i) : ∃ F' s' i' k',
    mergeUp z s i k = (s', i', k') ∧ Holds s' F' z k' i' ∧
    F' ∪ s'.pageBlock z k' i' = F ∪ s.pageBlock z k i ∧ Frame s s' ∧
    (∀ p, (s'.pages p).owner = (s.pages p).owner) ∧
    (k' < MAX_ORDER → ¬ s'.IsFree z k' (i' ^^^ 2 ^ k')) := by
  fun_induction mergeUp z s i k generalizing F with
  | case1 s i k hk b page hbuddy =>
    rename_i ih
    have hf := h.inv.page_is_buddy_iff.mp hbuddy
    have hfr' := frame_unlink s k page
    obtain ⟨F', s', i', k', heq, hhold, hcover, hfr, hown, hend⟩ := ih (h.merge hk hf)
    refine ⟨F', s', i', k', heq, hhold, ?_, hfr'.trans hfr, ?_, hend⟩
    · rw [hcover, hfr'.pageBlock]
      exact h.merge_cover hf
    · intro p
      rw [hown, owner_unlink]
  | case2 s i k hk b page =>
    rename_i hbuddy
    exact ⟨F, s, i, k, rfl, h, rfl, Frame.refl s, fun _ => rfl,
      fun _ hf => hbuddy (h.inv.page_is_buddy_iff.mpr hf)⟩
  | case3 s i k hk =>
    exact ⟨F, s, i, k, rfl, h, rfl, Frame.refl s, fun _ => rfl, fun hlt => absurd hlt hk⟩

end Buddy

open Buddy
variable {s : Buddy} {F : Finset ℕ} {z k i j : ℕ}

theorem buddy_free_pages_sub_spec (h : Inv s F) (hb : s.IsBlock z k i)
    (hF : ∀ p ∈ s.pageBlock z k i, p ∉ F) :
    ∃ s', buddy_free_pages_sub (s.zones z + i) k s = some s' ∧
      Freed s F (s.pageBlock z k i) s' := by
  have hbase := (hb.inZone _ (self_mem_block _ _)).zone_num
  have hidx : page2idx s (s.zones z + i) = i := by
    rw [page2idx, hbase]
    omega
  have haligned : i &&& (2 ^ k - 1) = 0 := by
    rw [Nat.and_two_pow_sub_one_eq_mod]
    exact Nat.mod_eq_zero_of_dvd hb.dvd
  have hok : ∀ p, s.zones z + i ≤ p → p < s.zones z + i + 2 ^ k →
      (!(s.pages p).flags.reserved && !(s.pages p).flags.property) = true := by
    intro p hlo hhi
    have hp : p ∈ s.pageBlock z k i := mem_block.mpr ⟨hlo, hhi⟩
    simp [(hb.inZone p hp).reserved, h.not_property (hb.inZone p hp) (hF p hp)]
  obtain ⟨hhold, hfr, hown⟩ := h.clear hb hF
  obtain ⟨F', s', i', k', hmerge, hhold', hcover, hfr', hown', hend⟩ := mergeUp_spec hhold
  have hzone : ((s.clear (s.zones z + i) (2 ^ k)).pages (s.zones z + i)).zone_num = z :=
    (hfr.page _).2.trans hbase
  have hsweep : s.sweep (fun x => !x.flags.reserved && !x.flags.property)
      (fun x => { x with flags := .zero, ref := 0 }) (2 ^ k) (s.zones z + i) =
      some (s.clear (s.zones z + i) (2 ^ k)) := sweep_eq _ _ hok
  refine ⟨s'.link k' (s'.zones z + i'), ?_, ?_, ?_, ?_⟩
  · simp [buddy_free_pages_sub, hidx, haligned, hsweep, hzone, hmerge, idx2page]
  · rw [← hfr.pageBlock z k i, ← hcover]
    exact Inv.link hhold' hend
  · exact (hfr.trans hfr').trans (frame_link ..)
  · intro p
    rw [owner_link, hown', hown]

/-- The `n` pages from index `i` of zone `z` belong to the zone and are not free. -/
def Buddy.Taken (s : Buddy) (F : Finset ℕ) (z i n : ℕ) : Prop :=
  ∀ p ∈ Ico (s.zones z + i) (s.zones z + i + n), s.InZone z p ∧ p ∉ F

variable {n : ℕ}

theorem buddy_free_pages_sub_step (h : Inv s F) (ht : s.Taken F z i n) (hk : k ≤ MAX_ORDER)
    (hi : 2 ^ k ∣ i) (hn : 2 ^ k ≤ n) :
    ∃ s', buddy_free_pages_sub (s.zones z + i) k s = some s' ∧ Freed s F (s.pageBlock z k i) s' ∧
      s'.Taken (F ∪ s.pageBlock z k i) z (i + 2 ^ k) (n - 2 ^ k) := by
  have hsub : ∀ p ∈ s.pageBlock z k i, s.InZone z p ∧ p ∉ F := by
    intro p hp
    apply ht p
    rw [mem_block] at hp
    rw [mem_Ico]
    omega
  obtain ⟨s', heq, hfreed⟩ := buddy_free_pages_sub_spec h ⟨hk, hi, fun p hp => (hsub p hp).1⟩
    fun p hp => (hsub p hp).2
  refine ⟨s', heq, hfreed, fun p hp => ?_⟩
  rw [hfreed.frame.zones, mem_Ico] at hp
  obtain ⟨hz, hF⟩ := ht p (mem_Ico.mpr (by omega))
  refine ⟨hfreed.frame.inZone.mpr hz, ?_⟩
  rw [mem_union, mem_block]
  rintro (hp' | hp')
  · exact hF hp'
  · omega

theorem pageBlock_union_Ico (hj : i + 2 ^ k ≤ j) :
    s.pageBlock z k i ∪ Ico (s.zones z + i + 2 ^ k) (s.zones z + j) =
      Ico (s.zones z + i) (s.zones z + j) := by
  ext p
  have := Nat.two_pow_pos k
  rw [mem_union, mem_block, mem_Ico, mem_Ico]
  omega

theorem Buddy.Taken.page2idx (ht : s.Taken F z i n) (hn : 0 < n) :
    page2idx s (s.zones z + i) = i := by
  have hz := (ht (s.zones z + i) (mem_Ico.mpr (by omega))).1.zone_num
  rw [ucore.page2idx, hz]
  omega

theorem order_le_of_two_pow_le (hk : 2 ^ k ≤ n) (hn : n ≤ 2 ^ MAX_ORDER) : k ≤ MAX_ORDER :=
  (Nat.pow_le_pow_iff_right (by omega)).mp (hk.trans hn)

section
variable (h : Inv s F) (ht : s.Taken F z i n) (hi : 2 ^ k ∣ i) (hn : n ≤ 2 ^ MAX_ORDER)
include h ht hi hn

/-- The first loop of `buddy_free_pages` frees blocks of growing order until what is left
is smaller than the order to which its start is aligned. -/
theorem freeUp_spec : ∃ s' i' n' k',
    freeUp s (s.zones z + i) n k = some (s', s.zones z + i', n', k') ∧
    i ≤ i' ∧ i' + n' = i + n ∧ n' < 2 ^ k' ∧ 2 ^ k' ∣ i' ∧
    Freed s F (Ico (s.zones z + i) (s.zones z + i')) s' ∧
    s'.Taken (F ∪ Ico (s.zones z + i) (s.zones z + i')) z i' n' := by
  generalize hbase : s.zones z + i = base
  fun_induction freeUp s base n k generalizing F i with
  | case1 s base n k hkn hk hbit =>
    rename_i ih
    subst hbase
    obtain ⟨s1, hsub, hfreed, ht1⟩ := buddy_free_pages_sub_step h ht hk hi hkn
    rw [ht.page2idx (by have := Nat.two_pow_pos k; omega), ne_eq, and_two_pow_eq_zero_iff hi]
      at hbit
    obtain hlow | ⟨a, ha, rfl⟩ := half_cases hi
    · exact absurd hlow hbit
    have hi1 : 2 ^ (k + 1) ∣ a + 2 ^ k + 2 ^ k := by
      rw [Nat.add_assoc, ← Nat.two_mul, Nat.mul_comm, ← pow_succ]
      exact Nat.dvd_add ha (Nat.dvd_refl _)
    obtain ⟨s', i', n', k', heq, hle, hsum, hlt, hdvd, hfr, ht'⟩ :=
      ih s1 hfreed.inv ht1 hi1 (by omega) (by rw [hfreed.frame.zones]; omega)
    rw [hfreed.frame.zones] at heq hfr ht'
    refine ⟨s', i', n', k', ?_, by omega, by omega, hlt, hdvd, ?_, ?_⟩
    · rw [hsub, ← heq]
      rfl
    · rw [← pageBlock_union_Ico hle]
      exact hfreed.trans hfr
    · rwa [← pageBlock_union_Ico hle, ← union_assoc]
  | case2 s base n k hkn hk hbit =>
    rename_i ih
    subst hbase
    rw [ht.page2idx (by have := Nat.two_pow_pos k; omega), ne_eq, not_not,
      and_two_pow_eq_zero_iff hi] at hbit
    exact ih h ht hbit hn rfl
  | case3 s base n k hkn hk =>
    exact absurd (order_le_of_two_pow_le hkn hn) hk
  | case4 s base n k hkn =>
    subst hbase
    refine ⟨s, i, n, k, rfl, le_refl _, rfl, by omega, hi, ?_, ?_⟩
    · simpa using Freed.refl h
    · simpa using ht

theorem freeDown_spec (hk : n < 2 ^ (k + 1)) :
    ∃ s', freeDown s (s.zones z + i) n k = some s' ∧
      Freed s F (Ico (s.zones z + i) (s.zones z + (i + n))) s' := by
  generalize hbase : s.zones z + i = base
  fun_induction freeDown s base n k generalizing F i with
  | case1 s base k =>
    subst hbase
    exact ⟨s, rfl, by simpa using Freed.refl h⟩
  | case2 s base n k hn0 hlt =>
    rename_i ih
    obtain ⟨k, rfl⟩ : ∃ j, k = j + 1 := Nat.exists_eq_succ_of_ne_zero (by
      rintro rfl
      omega)
    exact ih h ht ((Nat.pow_dvd_pow 2 (by omega)).trans hi) hn hlt hbase
  | case3 s base n k hn0 hge =>
    rename_i ih
    subst hbase
    have hkn : 2 ^ k ≤ n := by omega
    obtain ⟨s1, hsub, hfreed, ht1⟩ :=
      buddy_free_pages_sub_step h ht (order_le_of_two_pow_le hkn hn) hi hkn
    obtain ⟨s', heq, hfr⟩ := ih s1 hfreed.inv ht1 (Nat.dvd_add hi (Nat.dvd_refl _)) (by omega)
      (by rw [pow_succ]; omega) (by rw [hfreed.frame.zones]; omega)
    refine ⟨s', ?_, ?_⟩
    · rw [hsub, ← heq]
      rfl
    · rw [hfreed.frame.zones, show i + 2 ^ k + (n - 2 ^ k) = i + n by omega] at hfr
      rw [← pageBlock_union_Ico (show i + 2 ^ k ≤ i + n by omega)]
      exact hfreed.trans hfr

end

/-- Giving back a run of at most `2 ^ MAX_ORDER` pages of one zone: no assertion fails and
exactly these pages become free. -/
theorem buddy_free_pages_spec (h : Inv s F) (ht : s.Taken F z i n) (hpos : 0 < n)
    (hn : n ≤ 2 ^ MAX_ORDER) :
    ∃ s', buddy_free_pages (s.zones z + i) n s = some s' ∧
      Freed s F (Ico (s.zones z + i) (s.zones z + i + n)) s' := by
  by_cases hone : n = 1
  · subst hone
    obtain ⟨s', heq, hfreed, -⟩ :=
      buddy_free_pages_sub_step h ht (Nat.zero_le MAX_ORDER) (Nat.one_dvd i) (le_refl 1)
    exact ⟨s', by simpa [buddy_free_pages] using heq, hfreed⟩
  · obtain ⟨s1, i1, n1, k1, hup, hle, hsum, hlt, hdvd, hfreed, ht1⟩ :=
      freeUp_spec h ht (show 2 ^ 0 ∣ i from Nat.one_dvd i) hn
    obtain ⟨s', hdown, hfreed'⟩ := freeDown_spec hfreed.inv ht1 hdvd (by omega)
      (hlt.trans (Nat.pow_lt_pow_right (by omega) (by omega)))
    rw [hfreed.frame.zones] at hdown hfreed'
    refine ⟨s', ?_, ?_⟩
    · simp [buddy_free_pages, hpos, hone, hup, hdown]
    · rw [hsum] at hfreed'
      have hunion := Ico_union_Ico_eq_Ico (show s.zones z + i ≤ s.zones z + i1 by omega)
        (show s.zones z + i1 ≤ s.zones z + (i + n) by omega)
      rw [show s.zones z + i + n = s.zones z + (i + n) by omega, ← hunion]
      exact hfreed.trans hfreed'

end ucore
