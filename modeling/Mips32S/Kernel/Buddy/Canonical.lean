import Mips32S.Kernel.Buddy.Integrity

open dyadic

namespace ucore

namespace Buddy

variable {s s' : Buddy} {zs runs runs' : List Run} {zn : Run} {k i p : ℕ}

def freeIndices (zs runs : List Run) (zn : Run) : Set ℕ :=
  {x | zn.base + x ∈ freePages zs runs ∧ zn.base + x ∈ zn.pages}

theorem Valid.tiling (h : s.Valid zs runs) (hzn : zn ∈ zs) :
    Tiling MAX_ORDER (freeIndices zs runs zn)
      fun k i => zn.base + i ∈ s.free_list k ∧ zn.base + i ∈ zn.pages := by
  obtain ⟨z, hz⟩ := List.mem_iff_getElem?.mp hzn
  have hbase := h.zoned.base hz
  have hiff : ∀ {x}, s.InZone z (zn.base + x) ↔ zn.base + x ∈ zn.pages := by
    intro x
    rw [h.zoned.inZone, hz]
    simp
  convert h.inv.tiling z using 1
  · ext x
    rw [mem_indices, hbase]
    constructor
    · rintro ⟨hF, hp⟩
      exact ⟨hF, (hiff.mpr hp).zone_num⟩
    · rintro ⟨hF, hzone⟩
      exact ⟨hF, hiff.mp (hzone ▸ h.inv.inZone _ hF)⟩
  · funext k i
    rw [IsFree, hbase, eq_iff_iff]
    constructor
    · rintro ⟨hmem, hp⟩
      exact ⟨hmem, (hiff.mpr hp).zone_num⟩
    · rintro ⟨hmem, hzone⟩
      exact ⟨hmem, hiff.mp (hzone ▸ (h.inv.head hmem).1)⟩

theorem Valid.exists_index (h : s.Valid zs runs) (hp : p ∈ s.free_list k) :
    ∃ zn ∈ zs, ∃ i, p = zn.base + i ∧ p ∈ zn.pages := by
  obtain ⟨zn, hzn, hpz⟩ := h.zoned.inZone.mp (h.inv.head hp).1
  obtain ⟨i, rfl⟩ := Nat.exists_eq_add_of_le (Run.mem_pages.mp hpz).1
  exact ⟨zn, List.mem_of_getElem? hzn, i, rfl, hpz⟩

variable (h : s.Valid zs runs) (h' : s'.Valid zs runs')
  (heq : freePages zs runs' = freePages zs runs)
include h h' heq

theorem Valid.mem_of_freePages_eq (hp : p ∈ s.free_list k) : p ∈ s'.free_list k := by
  obtain ⟨zn, hzn, i, rfl, hpz⟩ := h.exists_index hp
  have ht := h'.tiling hzn
  rw [freeIndices, heq] at ht
  exact (((h.tiling hzn).iff_of_tiling ht).mp ⟨hp, hpz⟩).1

/-- States with the same free pages have the same free blocks. -/
theorem Valid.perm_free_list (k : ℕ) : (s'.free_list k).Perm (s.free_list k) := by
  rw [List.perm_ext_iff_of_nodup (h'.inv.nodup k) (h.inv.nodup k)]
  exact fun p => ⟨h'.mem_of_freePages_eq h heq.symm, h.mem_of_freePages_eq h' heq⟩

end Buddy

open Buddy

/-- In every reachable state no two free blocks of an order below the largest are buddies,
the free blocks are the maximal aligned blocks of free pages, and once all runs have been
given back they are those right after initialisation. -/
theorem buddy_canonical {s : Buddy} {zs runs : List Run} (h : Reach s zs runs) :
    (∀ zn ∈ zs, ∀ k < MAX_ORDER, ∀ i, zn.base + i ∈ zn.pages →
      zn.base + (i ^^^ 2 ^ k) ∈ zn.pages → zn.base + i ∈ s.free_list k →
      zn.base + (i ^^^ 2 ^ k) ∉ s.free_list k) ∧
    (∀ zn ∈ zs, ∀ k i, zn.base + i ∈ zn.pages →
      (zn.base + i ∈ s.free_list k ↔ Maximal MAX_ORDER (freeIndices zs runs zn) k i)) ∧
    (∀ s' runs', Reach s' zs runs' → freePages zs runs' = freePages zs runs →
      ∀ k, (s'.free_list k).Perm (s.free_list k)) ∧
    (∀ s0, Boot s0 zs → runs = [] → ∀ k, (s.free_list k).Perm (s0.free_list k)) := by
  have hvalid := h.valid
  refine ⟨?_, ?_, ?_, ?_⟩
  · intro zn hzn k hk i hp hp' hmem hmem'
    exact (hvalid.tiling hzn).merged hk ⟨hmem, hp⟩ ⟨hmem', hp'⟩
  · intro zn hzn k i hp
    rw [← (hvalid.tiling hzn).iff_maximal]
    exact ⟨fun hmem => ⟨hmem, hp⟩, fun hmem => hmem.1⟩
  · intro s' runs' h' heq
    exact hvalid.perm_free_list h'.valid heq
  · rintro s0 hboot rfl
    exact hboot.valid.perm_free_list hvalid rfl

/-- When the last and the first part of the run come back as well, the block that the
allocation took apart is whole again. -/
theorem buddy_canonical_parted : ∃ s0 s s1 s2, Boot s0 [⟨0, 20⟩] ∧ s0.free_list 4 = [0] ∧
    Reach s [⟨0, 20⟩] [⟨0, 2⟩, ⟨5, 2⟩] ∧ 0 ∉ s.free_list 4 ∧
    buddy_free_pages 5 2 s = some s1 ∧ buddy_free_pages 0 2 s1 = some s2 ∧
    (∀ k, (s2.free_list k).Perm (s0.free_list k)) ∧ s2.free_list 4 = [0] := by
  obtain ⟨s0, -, s, hboot, hlist, -, -, h⟩ := Reach.exists_parted
  have hzero : 0 ∉ s.free_list 4 := by
    intro hmem
    have hdisj := h.valid.integrity.free_run_disjoint 4 0 hmem ⟨0, 2⟩ (by simp)
    have hblock : 0 ∈ block 4 0 := mem_block.mpr (by decide)
    exact Finset.disjoint_left.mp hdisj hblock (Run.mem_pages.mpr (by decide))
  obtain ⟨s1, hfree1, h1⟩ :=
    h.free_some ⟨5, 2⟩ 5 2 (by simp) (by decide) (by decide) (by decide)
  have h1 : Reach s1 [⟨0, 20⟩] [⟨0, 2⟩] := h1
  obtain ⟨s2, hfree2, h2⟩ :=
    h1.free_some ⟨0, 2⟩ 0 2 (by simp) (by decide) (by decide) (by decide)
  obtain ⟨-, -, -, hinit⟩ := buddy_canonical h2
  have hperm := hinit s0 hboot rfl
  have hwhole : s2.free_list 4 = [0] := List.perm_singleton.mp (hlist ▸ hperm 4)
  exact ⟨s0, s, s1, s2, hboot, hlist, h, hzero, hfree1, hfree2, hperm, hwhole⟩

end ucore
