import Mips32S.Kernel.Paging.Steps

open Option Finset

namespace ucore

variable {σ : Type} {A : runs.Allocator σ ℤ} {S : runs.Spec A} {D D' : Finset ℕ} {s s' : Vm σ}
  {d i j t p : ℕ} {x : ℕ × ℕ × ℕ} {w : BitVec 32}

theorem table_write_dir (s : Vm σ) (d i d' i' : ℕ) (w : BitVec 32) :
    (s.write (d, i) w).table d' i' = if d' = d ∧ i' = i then frame w else s.table d' i' := by
  by_cases hd : d' = d
  · by_cases hi : i' = i <;> simp [Vm.table, Vm.write, hd, hi]
  · simp [Vm.table, Vm.write, hd]

section
variable (hnone : s.table d i = none) (hw : frame w = some t)
include hnone hw

theorem isTable_addTable (hd : d ∈ D) (hi : i < 1024) :
    IsTable D (s.write (d, i) w) p ↔ IsTable D s p ∨ p = t := by
  constructor
  · rintro ⟨d', hd', i', hi', hp⟩
    rw [table_write_dir] at hp
    split at hp
    · rw [hw] at hp
      exact .inr (some_inj.mp hp).symm
    · exact .inl ⟨d', hd', i', hi', hp⟩
  · rintro (⟨d', hd', i', hi', hp⟩ | rfl)
    · refine ⟨d', hd', i', hi', ?_⟩
      rw [table_write_dir, if_neg, hp]
      rintro ⟨rfl, rfl⟩
      rw [hnone] at hp
      cases hp
    · exact ⟨d, hd, i, hi, by rw [table_write_dir, if_pos ⟨rfl, rfl⟩, hw]⟩

theorem isData_addTable (hd : d ∈ D) (hi : i < 1024) :
    IsData S D (s.write (d, i) w) p ↔ IsData S D s p ∧ p ≠ t := by
  have hisTable := isTable_addTable hnone hw hd hi (p := p)
  constructor
  · intro hp
    have hnot := hp.not_table
    rw [hisTable, not_or] at hnot
    exact ⟨⟨hp.owned, hp.not_dir, hnot.1⟩, hnot.2⟩
  · rintro ⟨hp, hne⟩
    refine ⟨hp.owned, hp.not_dir, ?_⟩
    rw [hisTable, not_or]
    exact ⟨hp.not_table, hne⟩

theorem Vm.Wf.pte_addTable (h : s.Wf S D) (ht : t ∉ D) (hzero : ∀ j, s.mem t j = 0#32)
    (hd : d ∈ D) (hx : x ∈ slots D) : (s.write (d, i) w).pte x = s.pte x := by
  obtain ⟨d', i', j'⟩ := x
  obtain ⟨hd', hi', -⟩ := mem_slots.mp hx
  have hmem : ∀ t' ≠ d, (s.write (d, i) w).mem t' = s.mem t' := by
    intro t' hne
    simp [Vm.write, hne]
  unfold Vm.pte
  rw [table_write_dir]
  by_cases hdi : d' = d ∧ i' = i
  · obtain ⟨rfl, rfl⟩ := hdi
    have htd : t ≠ d' := fun heq => ht (heq ▸ hd)
    simp [hnone, hw, hmem t htd, hzero]
  · rw [if_neg hdi]
    cases ht' : s.table d' i' with
    | none => rfl
    | some t' =>
      have htd : t' ≠ d := fun heq => (h.table d' hd' i' hi' t' ht').2 (heq ▸ hd)
      simp [hmem t' htd]

theorem Vm.Wf.addTable (h : s.Wf S D) (ht : IsData S D s t) (hcount : count D s t = 0)
    (hzero : ∀ j, s.mem t j = 0#32) (hd : d ∈ D) (hi : i < 1024) :
    (s.write (d, i) w).Wf S D := by
  have hpte := fun x => h.pte_addTable hnone hw ht.not_dir hzero hd (x := x)
  refine ⟨h.inv, h.dir, ?_, ?_, ?_, ?_, ?_⟩
  · intro d' hd' i' hi' t' ht'
    rcases (isTable_addTable hnone hw hd hi).mp ⟨d', hd', i', hi', ht'⟩ with hold | rfl
    · exact h.isTable_owned hold
    · exact ⟨ht.owned, ht.not_dir⟩
  · intro d1 hd1 i1 hi1 d2 hd2 i2 hi2 t' ht1 ht2
    rw [table_write_dir, hw] at ht1 ht2
    split at ht1 <;> split at ht2
    · rename_i h1 h2
      exact ⟨h1.1.trans h2.1.symm, h1.2.trans h2.2.symm⟩
    · exact absurd ⟨d2, hd2, i2, hi2, ht1 ▸ ht2⟩ ht.not_table
    · exact absurd ⟨d1, hd1, i1, hi1, ht2 ▸ ht1⟩ ht.not_table
    · exact h.inj d1 hd1 i1 hi1 d2 hd2 i2 hi2 t' ht1 ht2
  · intro x hx p hp
    rw [hpte x hx] at hp
    refine (isData_addTable hnone hw hd hi).mpr ⟨h.data x hx p hp, ?_⟩
    rintro rfl
    exact count_eq_zero_iff.mp hcount x hx hp
  · intro x hx hnone
    rw [hpte x hx] at hnone ⊢
    exact h.zero x hx hnone
  · intro p hp
    rw [count_congr hpte]
    exact h.ref p hp

end

def Bare (d : ℕ) (s : Vm σ) : Prop := ∀ i < 1024, s.table d i = none

section
variable (hbare : Bare d s)
include hbare

theorem Bare.pte_eq (hi : i < 1024) : s.pte (d, i, j) = 0#32 := by
  simp [Vm.pte, hbare i hi]

theorem count_addDir : count (insert d D) s p = count D s p := by
  unfold count
  congr 1
  ext ⟨d', i, j⟩
  simp only [mem_filter, mem_slots, mem_insert]
  constructor
  · rintro ⟨⟨rfl | hd', hij⟩, hp⟩
    · rw [hbare.pte_eq hij.1] at hp
      cases hp
    · exact ⟨⟨hd', hij⟩, hp⟩
  · rintro ⟨⟨hd', hij⟩, hp⟩
    exact ⟨⟨.inr hd', hij⟩, hp⟩

theorem isTable_addDir : IsTable (insert d D) s p ↔ IsTable D s p := by
  constructor
  · rintro ⟨d', hd', i, hi, hp⟩
    rcases mem_insert.mp hd' with rfl | hd'
    · rw [hbare i hi] at hp
      cases hp
    · exact ⟨d', hd', i, hi, hp⟩
  · rintro ⟨d', hd', i, hi, hp⟩
    exact ⟨d', mem_insert_of_mem hd', i, hi, hp⟩

theorem isData_addDir : IsData S (insert d D) s p ↔ IsData S D s p ∧ p ≠ d := by
  constructor
  · intro hp
    have hnot := hp.not_dir
    rw [mem_insert, not_or] at hnot
    exact ⟨⟨hp.owned, hnot.2, fun ht => hp.not_table ((isTable_addDir hbare).mpr ht)⟩, hnot.1⟩
  · rintro ⟨hp, hne⟩
    refine ⟨hp.owned, ?_, fun ht => hp.not_table ((isTable_addDir hbare).mp ht)⟩
    rw [mem_insert, not_or]
    exact ⟨hne, hp.not_dir⟩

theorem Vm.Wf.addDir (h : s.Wf S D) (hd : IsData S D s d) (hcount : count D s d = 0) :
    s.Wf S (insert d D) := by
  have hold : ∀ d' ∈ insert d D, ∀ i < 1024, ∀ t, s.table d' i = some t → d' ∈ D := by
    intro d' hd' i hi t ht
    rcases mem_insert.mp hd' with rfl | hd'
    · rw [hbare i hi] at ht
      cases ht
    · exact hd'
  refine ⟨h.inv, ?_, ?_, ?_, ?_, ?_, ?_⟩
  · intro d' hd'
    rcases mem_insert.mp hd' with rfl | hd'
    · exact hd.owned
    · exact h.dir d' hd'
  · intro d' hd' i hi t ht
    obtain ⟨howned, hnot⟩ := h.table d' (hold d' hd' i hi t ht) i hi t ht
    refine ⟨howned, ?_⟩
    rw [mem_insert, not_or]
    refine ⟨?_, hnot⟩
    rintro rfl
    exact hd.not_table ⟨d', hold d' hd' i hi t ht, i, hi, ht⟩
  · intro d1 hd1 i1 hi1 d2 hd2 i2 hi2 t ht1 ht2
    exact h.inj d1 (hold d1 hd1 i1 hi1 t ht1) i1 hi1 d2 (hold d2 hd2 i2 hi2 t ht2) i2 hi2 t ht1 ht2
  · rintro ⟨d', i, j⟩ hx p hp
    obtain ⟨hd', hij⟩ := mem_slots.mp hx
    rcases mem_insert.mp hd' with rfl | hd'
    · rw [hbare.pte_eq hij.1] at hp
      cases hp
    · have hslot : (d', i, j) ∈ slots D := mem_slots.mpr ⟨hd', hij⟩
      refine (isData_addDir hbare).mpr ⟨h.data _ hslot p hp, ?_⟩
      rintro rfl
      exact count_eq_zero_iff.mp hcount _ hslot hp
  · rintro ⟨d', i, j⟩ hx hnone
    obtain ⟨hd', hij⟩ := mem_slots.mp hx
    rcases mem_insert.mp hd' with rfl | hd'
    · exact hbare.pte_eq hij.1
    · exact h.zero _ (mem_slots.mpr ⟨hd', hij⟩) hnone
  · intro p hp
    rw [count_addDir hbare]
    exact h.ref p hp

end

theorem count_le_of_frame (hsub : slots D' ⊆ slots D)
    (h : ∀ x ∈ slots D', frame (s'.pte x) = some p → frame (s.pte x) = some p) :
    count D' s' p ≤ count D s p := by
  refine card_le_card fun x hx => ?_
  rw [mem_filter] at hx ⊢
  exact ⟨hsub hx.1, h x hx.1 hx.2⟩

theorem slots_subset (h : D' ⊆ D) : slots D' ⊆ slots D := fun _ hx =>
  mem_slots.mpr ⟨h (mem_slots.mp hx).1, (mem_slots.mp hx).2⟩

theorem pte_removeTable (s : Vm σ) (hd : ∀ t, s.table x.1 x.2.1 = some t → t ≠ d) :
    (s.write (d, i) 0#32).pte x = if x.1 = d ∧ x.2.1 = i then 0#32 else s.pte x := by
  unfold Vm.pte
  rw [table_write_dir]
  split_ifs with heq
  · rfl
  · cases ht : s.table x.1 x.2.1 with
    | none => rfl
    | some t => simp [Vm.write, hd t ht]

namespace Vm.Wf

section
variable (h : s.Wf S D) (hd : d ∈ D) (hi : i < 1024) (ht : s.table d i = some t)
include h hd hi ht

theorem isTable_removeTable : IsTable D (s.write (d, i) 0#32) p ↔ IsTable D s p ∧ p ≠ t := by
  constructor
  · rintro ⟨d', hd', i', hi', hp⟩
    rw [table_write_dir] at hp
    split at hp
    · cases hp
    · rename_i hne
      refine ⟨⟨d', hd', i', hi', hp⟩, ?_⟩
      rintro rfl
      obtain ⟨rfl, rfl⟩ := h.inj d hd i hi d' hd' i' hi' p ht hp
      exact hne ⟨rfl, rfl⟩
  · rintro ⟨⟨d', hd', i', hi', hp⟩, hne⟩
    refine ⟨d', hd', i', hi', ?_⟩
    rw [table_write_dir, if_neg, hp]
    rintro ⟨rfl, rfl⟩
    rw [ht] at hp
    exact hne (some_inj.mp hp).symm

/-- The table of a directory entry that is cleared becomes a data page without mappings. -/
theorem removeTable :
    (s.write (d, i) 0#32).Wf S D ∧ IsData S D (s.write (d, i) 0#32) t ∧
      count D (s.write (d, i) 0#32) t = 0 := by
  have hisTable := fun p => h.isTable_removeTable hd hi ht (p := p)
  have hpte : ∀ x ∈ slots D, (s.write (d, i) 0#32).pte x =
      if x.1 = d ∧ x.2.1 = i then 0#32 else s.pte x := by
    intro x hx
    obtain ⟨hd', hi', -⟩ := mem_slots.mp hx
    refine pte_removeTable s fun t' ht' heq => ?_
    exact (h.table _ hd' _ hi' t' ht').2 (heq ▸ hd)
  have hframe : ∀ x ∈ slots D, ∀ p, frame ((s.write (d, i) 0#32).pte x) = some p →
      frame (s.pte x) = some p := by
    intro x hx p hp
    rw [hpte x hx] at hp
    split at hp
    · cases hp
    · exact hp
  have hcount : ∀ p, count D (s.write (d, i) 0#32) p ≤ count D s p := fun p =>
    count_le_of_frame (Finset.Subset.refl _) fun x hx => hframe x hx p
  have hnotdata : ¬ IsData S D s t := fun hdata => hdata.not_table ⟨d, hd, i, hi, ht⟩
  obtain ⟨howned, hnotdir⟩ := h.table d hd i hi t ht
  refine ⟨⟨h.inv, h.dir, ?_, ?_, ?_, ?_, ?_⟩, ⟨howned, hnotdir, ?_⟩, ?_⟩
  · intro d' hd' i' hi' t' ht'
    exact h.isTable_owned ((hisTable t').mp ⟨d', hd', i', hi', ht'⟩).1
  · intro d1 hd1 i1 hi1 d2 hd2 i2 hi2 t' ht1 ht2
    rw [table_write_dir] at ht1 ht2
    split at ht1 <;> split at ht2 <;> try cases ht1
    · cases ht2
    · exact h.inj d1 hd1 i1 hi1 d2 hd2 i2 hi2 t' ht1 ht2
  · intro x hx p hp
    obtain ⟨hp, hdir, htable⟩ := h.data x hx p (hframe x hx p hp)
    exact ⟨hp, hdir, fun hT => htable ((hisTable p).mp hT).1⟩
  · intro x hx hnone
    rw [hpte x hx] at hnone ⊢
    split at hnone
    · rw [if_pos ‹_›]
    · rw [if_neg ‹_›]
      exact h.zero x hx hnone
  · intro p hp
    have hle := h.ref p hp
    have hc := hcount p
    change _ ≤ A.get s.pmm p
    omega
  · exact fun hT => ((hisTable t).mp hT).2 rfl
  · exact Nat.le_zero.mp (h.count_eq_zero hnotdata ▸ hcount t)

end

/-- A directory that is given up becomes a data page without mappings; so do its tables. -/
theorem removeDir (h : s.Wf S D) (hd : d ∈ D) :
    s.Wf S (D.erase d) ∧ IsData S (D.erase d) s d ∧ count (D.erase d) s d = 0 := by
  have hsub := erase_subset d D
  have hcount : ∀ p, count (D.erase d) s p ≤ count D s p := fun p =>
    count_le_of_frame (slots_subset hsub) fun _ _ hp => hp
  have hnotdata : ¬ IsData S D s d := fun hdata => hdata.not_dir hd
  have htable : ∀ p, IsTable (D.erase d) s p → IsTable D s p :=
    fun p ⟨d', hd', hp⟩ => ⟨d', hsub hd', hp⟩
  refine ⟨⟨h.inv, fun d' hd' => h.dir d' (hsub hd'), ?_, ?_, ?_,
    fun x hx => h.zero x (slots_subset hsub hx), ?_⟩, ⟨h.dir d hd, ?_, ?_⟩, ?_⟩
  · intro d' hd' i hi t ht
    obtain ⟨howned, hnot⟩ := h.table d' (hsub hd') i hi t ht
    exact ⟨howned, fun hmem => hnot (hsub hmem)⟩
  · intro d1 hd1 i1 hi1 d2 hd2
    exact h.inj d1 (hsub hd1) i1 hi1 d2 (hsub hd2)
  · intro x hx p hp
    obtain ⟨howned, hdir, hnot⟩ := h.data x (slots_subset hsub hx) p hp
    exact ⟨howned, fun hmem => hdir (hsub hmem), fun hT => hnot (htable p hT)⟩
  · intro p hp
    have hle := h.ref p hp
    have hc := hcount p
    omega
  · simp
  · exact fun hT => (h.isTable_owned (htable d hT)).2 hd
  · exact Nat.le_zero.mp (h.count_eq_zero hnotdata ▸ hcount d)

end Vm.Wf

end ucore
