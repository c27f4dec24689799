import Mips32S.Kernel.Buddy.Free

open dyadic Finset List

namespace ucore

namespace Buddy

variable {s : Buddy} {F : Finset ℕ} {z k i d : ℕ}

theorem Holds.split (h : Holds s F z (k + 1) i) :
    Holds (s.link k (s.zones z + (i + 2 ^ k))) (F ∪ s.pageBlock z k (i + 2 ^ k)) z k i := by
  have hk : k < MAX_ORDER := h.block.order_le
  have hfr := frame_link s k (s.zones z + (i + 2 ^ k))
  have hlow : ∀ p ∈ s.pageBlock z k i, p ∈ s.pageBlock z (k + 1) i := by
    intro p hp
    exact block_subset (Nat.le_succ k) _ hp
  have hhigh : ∀ p ∈ s.pageBlock z k (i + 2 ^ k), p ∈ s.pageBlock z (k + 1) i := by
    intro p hp
    rw [mem_block] at hp ⊢
    rw [pow_succ]
    omega
  have hdvd : 2 ^ k ∣ i := (Nat.pow_dvd_pow 2 (Nat.le_succ k)).trans h.block.dvd
  have hupper : Holds s F z k (i + 2 ^ k) :=
    { inv := h.inv
      block := ⟨hk.le, Nat.dvd_add hdvd (Nat.dvd_refl _), fun p hp => h.block.inZone p (hhigh p hp)⟩
      not_mem := fun p hp => h.not_mem p (hhigh p hp)
      clean := fun p hp => h.clean p (hhigh p hp) }
  refine ⟨Inv.link hupper fun _ hf => ?_, ?_, ?_, ?_⟩
  · -- The buddy of the upper half starts with the page in hand, which is not free.
    rw [add_xor_of_dvd h.block.dvd] at hf
    exact h.not_mem _ (self_mem_block _ _) (h.inv.mem_of_isFree hf (self_mem_block _ _)).1
  · exact hfr.isBlock ⟨hk.le, hdvd, fun p hp => h.block.inZone p (hlow p hp)⟩
  · intro p hp
    rw [hfr.pageBlock] at hp
    rw [mem_union]
    rintro (hF | hp')
    · exact h.not_mem p (hlow p hp) hF
    · rw [mem_block] at hp hp'
      omega
  · intro p hp
    rw [owner_link]
    exact h.clean p (hlow p hp)

/-- Halving a held block down to order `k`: everything but the first `2 ^ k` pages becomes
free. -/
theorem splitDown_spec (h : Holds s F z (k + d) i) :
    ∃ F', Holds (splitDown k (s.zones z + i) d s) F' z k i ∧
      F' ∪ s.pageBlock z k i = F ∪ s.pageBlock z (k + d) i ∧
      Frame s (splitDown k (s.zones z + i) d s) ∧
      ∀ p, ((splitDown k (s.zones z + i) d s).pages p).owner = (s.pages p).owner := by
  induction d generalizing s F with
  | zero => exact ⟨F, h, rfl, Frame.refl s, fun _ => rfl⟩
  | succ d ih =>
    have hfr := frame_link s (k + d) (s.zones z + (i + 2 ^ (k + d)))
    have h' : Holds s F z (k + d + 1) i := h
    obtain ⟨F', hhold, hcover, hfr', hown⟩ := ih h'.split
    rw [hfr.zones] at hhold hfr' hown
    rw [hfr.pageBlock, hfr.pageBlock] at hcover
    rw [splitDown, Nat.add_assoc]
    refine ⟨F', hhold, ?_, hfr.trans hfr', fun p => by rw [hown, owner_link]⟩
    rw [hcover, union_assoc, union_comm (s.pageBlock z (k + d) _),
      ← Nat.add_assoc k, pageBlock, pageBlock, pageBlock, block_succ, Nat.add_assoc (s.zones z)]

theorem clearPageProperty_splitDown {k page p : ℕ} (hp : p ≤ page) :
    (splitDown k page d s).ClearPageProperty p = splitDown k page d (s.ClearPageProperty p) := by
  induction d generalizing s with
  | zero => rfl
  | succ d ih =>
    have := Nat.two_pow_pos (k + d)
    rw [splitDown, splitDown, ih, clearPageProperty_link]
    omega

end Buddy

open Buddy
variable {s : Buddy} {F : Finset ℕ} {k n : ℕ}

theorem Buddy.Inv.take {z i d : ℕ} (h : Inv s F) (hf : s.IsFree z (k + d) i) :
    ∃ F', Holds ((splitDown k (s.zones z + i) d
        (s.unlink (k + d) (s.zones z + i))).ClearPageProperty (s.zones z + i)) F' z k i ∧
      F' ∪ s.pageBlock z k i = F ∧
      Frame s ((splitDown k (s.zones z + i) d
        (s.unlink (k + d) (s.zones z + i))).ClearPageProperty (s.zones z + i)) ∧
      ∀ p, (((splitDown k (s.zones z + i) d
        (s.unlink (k + d) (s.zones z + i))).ClearPageProperty (s.zones z + i)).pages p).owner =
          (s.pages p).owner := by
  have hfr := frame_unlink s (k + d) (s.zones z + i)
  have hsub : s.pageBlock z (k + d) i ⊆ F := fun p hp => (h.mem_of_isFree hf hp).1
  have hhold : Holds ((s.unlink (k + d) (s.zones z + i)).ClearPageProperty (s.zones z + i))
      (F \ s.pageBlock z (k + d) i) z (k + d) i :=
    { inv := h.unlink hf
      block := hfr.isBlock (h.isBlock hf)
      not_mem := fun p hp hF => (mem_sdiff.mp hF).2 hp
      clean := fun p hp => by
        rw [owner_unlink]
        exact h.clean p (hsub hp) }
  obtain ⟨F', hhold', hcover, hfr', hown⟩ := splitDown_spec hhold
  rw [hfr.zones] at hhold' hfr' hown
  rw [hfr.pageBlock, hfr.pageBlock, sdiff_union_of_subset hsub] at hcover
  rw [clearPageProperty_splitDown (le_refl _)]
  exact ⟨F', hhold', hcover, hfr.trans hfr', fun p => by rw [hown, owner_unlink]⟩

theorem buddy_alloc_pages_sub_spec (h : Inv s F) (hk : k ≤ MAX_ORDER) :
    buddy_alloc_pages_sub k s = some (none, s) ∨
    ∃ s' z i F', buddy_alloc_pages_sub k s = some (some (s.zones z + i), s') ∧
      Holds s' F' z k i ∧ F' ∪ s.pageBlock z k i = F ∧ Frame s s' ∧
      ∀ p, (s'.pages p).owner = (s.pages p).owner := by
  cases hfind : (range' k (MAX_ORDER + 1 - k)).find?
    (fun o => !(s.free_list o).isEmpty) with
  | none =>
    left
    simp [buddy_alloc_pages_sub, hk, hfind]
  | some c =>
    right
    have hc : k ≤ c := (mem_range'_1.mp (mem_of_find?_eq_some hfind)).1
    obtain ⟨d, rfl⟩ := Nat.exists_eq_add_of_le hc
    obtain ⟨page, rest, hlist⟩ : ∃ page rest, s.free_list (k + d) = page :: rest :=
      exists_cons_of_ne_nil (by simpa using find?_some hfind)
    have hmem : page ∈ s.free_list (k + d) := by simp [hlist]
    have hf := h.isFree_of_mem hmem
    have hpage := Nat.add_sub_cancel' (h.base_le (h.head hmem).1)
    obtain ⟨F', hhold, hcover, hfr, hown⟩ := h.take hf
    refine ⟨_, _, _, F', ?_, hhold, hcover, hfr, hown⟩
    simp [buddy_alloc_pages_sub, hk, hfind, hlist, hpage]

theorem getorder_spec (hn : n ≤ 2 ^ MAX_ORDER) :
    ∃ k, getorder n = some k ∧ k ≤ MAX_ORDER ∧ n ≤ 2 ^ k := by
  cases hfind : getorder n with
  | none =>
    have hmax := find?_eq_none.mp hfind MAX_ORDER (by simp)
    exact absurd hn (by simpa using hmax)
  | some k =>
    have hk := mem_of_find?_eq_some hfind
    have hle := find?_some hfind
    exact ⟨k, rfl, by simpa [Nat.lt_succ_iff] using hk, by simpa using hle⟩

/-- Allocation of `n` pages: no assertion fails; on success the pages were free, belong to
one zone, and are exactly what the free pages lose. -/
theorem buddy_alloc_pages_spec (h : Inv s F) (hpos : 0 < n) (hn : n ≤ 2 ^ MAX_ORDER) :
    buddy_alloc_pages n s = some (none, s) ∨
    ∃ s' z i, buddy_alloc_pages n s = some (some (s.zones z + i), s') ∧
      (∀ p ∈ Finset.Ico (s.zones z + i) (s.zones z + i + n), p ∈ F ∧ s.InZone z p) ∧
      Inv s' (F \ Finset.Ico (s.zones z + i) (s.zones z + i + n)) ∧ Frame s s' ∧
      ∀ p, (s'.pages p).owner = (s.pages p).owner := by
  obtain ⟨k, horder, hk, hnk⟩ := getorder_spec hn
  rcases buddy_alloc_pages_sub_spec h hk with hnone | ⟨s1, z, i, F', hsub, hhold, hcover, hfr, hown⟩
  · left
    simp [buddy_alloc_pages, hpos, horder, hnone]
  right
  have hsubset : Finset.Ico (s.zones z + i) (s.zones z + i + n) ⊆ s.pageBlock z k i := by
    intro p hp
    rw [mem_Ico] at hp
    rw [mem_block]
    omega
  have hzone : ∀ p ∈ s.pageBlock z k i, s.InZone z p := by
    intro p hp
    rw [← hfr.pageBlock] at hp
    exact hfr.inZone.mp (hhold.block.inZone p hp)
  have hmem : ∀ p ∈ Finset.Ico (s.zones z + i) (s.zones z + i + n), p ∈ F ∧ s.InZone z p := by
    intro p hp
    refine ⟨?_, hzone p (hsubset hp)⟩
    rw [← hcover]
    exact mem_union_right _ (hsubset hp)
  have hF' : ∀ p ∈ F', p ∉ s.pageBlock z k i := by
    intro p hp hb
    exact hhold.not_mem p (hfr.pageBlock z k i ▸ hb) hp
  have hrest : F \ Finset.Ico (s.zones z + i) (s.zones z + i + n) =
      F' ∪ Finset.Ico (s.zones z + i + n) (s.zones z + i + 2 ^ k) := by
    ext p
    have hp := hF' p
    rw [mem_block] at hp
    rw [← hcover, mem_sdiff, mem_union, mem_union, mem_block, mem_Ico, mem_Ico]
    by_cases hpF : p ∈ F'
    · have := hp hpF
      simp only [hpF, true_or, true_and, iff_true]
      omega
    · simp only [hpF, false_or]
      omega
  by_cases hfull : n = 2 ^ k
  · subst hfull
    refine ⟨s1, z, i, ?_, hmem, ?_, hfr, hown⟩
    · simp [buddy_alloc_pages, horder, hsub]
    · rw [hrest, Ico_self, union_empty]
      exact hhold.inv
  · -- The pages behind the first `n` go back.
    have ht : s1.Taken F' z (i + n) (2 ^ k - n) := by
      intro p hp
      rw [hfr.zones, mem_Ico] at hp
      have hb : p ∈ s1.pageBlock z k i := by
        rw [hfr.pageBlock, mem_block]
        omega
      exact ⟨hhold.block.inZone p hb, hhold.not_mem p hb⟩
    have hle : 2 ^ k ≤ 2 ^ MAX_ORDER := Nat.pow_le_pow_right (by omega) hk
    obtain ⟨s', hfree, hfreed⟩ := buddy_free_pages_spec hhold.inv ht (by omega) (by omega)
    rw [hfr.zones, ← Nat.add_assoc] at hfree hfreed
    rw [show s.zones z + i + n + (2 ^ k - n) = s.zones z + i + 2 ^ k by omega] at hfreed
    refine ⟨s', z, i, ?_, hmem, ?_, hfr.trans hfreed.frame, ?_⟩
    · simp [buddy_alloc_pages, hpos, horder, hsub, hfull, hfree]
    · rw [hrest]
      exact hfreed.inv
    · intro p
      rw [hfreed.owner, hown]
      split
      · rename_i hp
        have hpF : p ∈ F := by
          rw [← hcover, mem_union, mem_block]
          rw [mem_Ico] at hp
          omega
        exact (h.clean p hpF).symm
      · rfl

end ucore
