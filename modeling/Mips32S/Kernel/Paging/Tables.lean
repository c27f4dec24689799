import Mips32S.Kernel.Paging.Pmm
import Mips32S.Lib.Census

open Finset

namespace ucore

variable {σ : Type} {A : runs.Allocator σ ℤ}

/-- The page that an entry of a directory or a table names. -/
def frame (e : BitVec 32) : Option ℕ :=
  if ptep_present e then some (PPN (PTE_ADDR e)) else none

namespace Vm

/-- The table under an entry of a directory. -/
def table (s : Vm σ) (d i : ℕ) : Option ℕ := frame (s.mem d i)

/-- The page table entry at an index of a table of a directory; without a table it is 0. -/
def pte (s : Vm σ) (x : ℕ × ℕ × ℕ) : BitVec 32 :=
  match s.table x.1 x.2.1 with
  | some t => s.mem t x.2.2
  | none => 0#32

end Vm

/-- The places of page table entries of some directories. -/
@[irreducible] def slots (D : Finset ℕ) : Finset (ℕ × ℕ × ℕ) := D ×ˢ range 1024 ×ˢ range 1024

def slot (d : ℕ) (la : BitVec 32) : ℕ × ℕ × ℕ := (d, PDX la, PTX la)

/-- The number of present page table entries that map the page. -/
def count (D : Finset ℕ) (s : Vm σ) (p : ℕ) : ℕ :=
  ((slots D).filter fun x => frame (s.pte x) = some p).card

/-- The page holds a page table of one of the directories. -/
def IsTable (D : Finset ℕ) (s : Vm σ) (t : ℕ) : Prop := ∃ d ∈ D, ∃ i < 1024, s.table d i = some t

/-- The data pages: allocated, and neither directories nor tables. -/
structure IsData (S : runs.Spec A) (D : Finset ℕ) (s : Vm σ) (p : ℕ) : Prop where
  owned : p ∈ S.owned s.pmm
  not_dir : p ∉ D
  not_table : ¬ IsTable D s p

/-- The page tables of the directories `D` are well formed: they use allocated pages, each for
one purpose, map data pages only, and no page more often than its reference count says. An
entry that is not present is 0. -/
structure Vm.Wf (S : runs.Spec A) (D : Finset ℕ) (s : Vm σ) : Prop where
  inv : S.Inv s.pmm
  dir : ∀ d ∈ D, d ∈ S.owned s.pmm
  table : ∀ d ∈ D, ∀ i < 1024, ∀ t, s.table d i = some t → t ∈ S.owned s.pmm ∧ t ∉ D
  inj : ∀ d ∈ D, ∀ i < 1024, ∀ d' ∈ D, ∀ i' < 1024, ∀ t,
    s.table d i = some t → s.table d' i' = some t → d = d' ∧ i = i'
  data : ∀ x ∈ slots D, ∀ p, frame (s.pte x) = some p → IsData S D s p
  zero : ∀ x ∈ slots D, frame (s.pte x) = none → s.pte x = 0#32
  ref : ∀ p ∈ S.owned s.pmm, count D s p ≤ A.get s.pmm p

variable {S : runs.Spec A} {D : Finset ℕ} {s s' : Vm σ} {d i j t p : ℕ} {x : ℕ × ℕ × ℕ}
  {la w e : BitVec 32}

theorem mem_slots : x ∈ slots D ↔ x.1 ∈ D ∧ x.2.1 < 1024 ∧ x.2.2 < 1024 := by
  simp [slots]

theorem slot_mem (hd : d ∈ D) : slot d la ∈ slots D := mem_slots.mpr ⟨hd, PDX_lt la, PTX_lt la⟩

@[simp] theorem frame_zero : frame 0#32 = none := rfl

theorem frame_page2pa_or (hp : p < 2 ^ 19) (hw : PTE_ADDR w = 0#32) (hpres : ptep_present w) :
    frame (page2pa p ||| w) = some p := by
  rw [frame, ptep_present_page2pa_or, if_pos hpres, PTE_ADDR_page2pa_or p hw, PPN_page2pa hp]

theorem pa2page_of_frame (he : frame e = some p) (hp : p < A.size) :
    pa2page A.size (PTE_ADDR e) = some p := by
  unfold frame at he
  split at he
  · cases he
    exact if_pos hp
  · cases he

theorem pte2page_of_frame (he : frame e = some p) (hp : p < A.size) :
    pte2page A.size e = some p := by
  have hpres : ptep_present e := by
    by_contra hnot
    rw [frame, if_neg hnot] at he
    cases he
  rw [pte2page, if_pos hpres, pa2page_of_frame he hp]

theorem frame_eq_none_iff : frame e = none ↔ ptep_present e = false := by
  simp [frame]

theorem pte_of_table (ht : s.table d i = some t) : s.pte (d, i, j) = s.mem t j := by
  simp [Vm.pte, ht]

theorem count_congr (h : ∀ x ∈ slots D, s'.pte x = s.pte x) : count D s' = count D s := by
  funext p
  unfold count
  rw [filter_congr fun x hx => by rw [h x hx]]

theorem count_update (hx : x ∈ slots D) (hne : ∀ y ∈ slots D, y ≠ x → s'.pte y = s.pte y)
    (p : ℕ) : count D s' p + (if frame (s.pte x) = some p then 1 else 0) =
      count D s p + if frame (s'.pte x) = some p then 1 else 0 := by
  apply census.card_change hx
  intro y hy hyx
  rw [hne y hy hyx]

theorem count_eq_zero_iff : count D s p = 0 ↔ ∀ x ∈ slots D, frame (s.pte x) ≠ some p := by
  rw [count, card_eq_zero, filter_eq_empty_iff]

namespace Vm.Wf

variable (h : s.Wf S D)
include h

theorem isTable_owned (ht : IsTable D s t) : t ∈ S.owned s.pmm ∧ t ∉ D := by
  obtain ⟨d, hd, i, hi, ht⟩ := ht
  exact h.table d hd i hi t ht

theorem lt (hsize : A.size ≤ 2 ^ 19) (hp : p ∈ S.owned s.pmm) : p < 2 ^ 19 :=
  (S.owned_lt_size h.inv hp).trans_le hsize

theorem table_write {d' i' : ℕ} (ht : IsTable D s t) (hd' : d' ∈ D) :
    (s.write (t, j) w).table d' i' = s.table d' i' := by
  have htd : d' ≠ t := by
    rintro rfl
    exact (h.isTable_owned ht).2 hd'
  simp [Vm.table, Vm.write, htd]

theorem pte_write (hd : d ∈ D) (hi : i < 1024) (ht : s.table d i = some t) (hx : x ∈ slots D) :
    (s.write (t, j) w).pte x = if x = (d, i, j) then w else s.pte x := by
  obtain ⟨d', i', j'⟩ := x
  obtain ⟨hd', hi', -⟩ := mem_slots.mp hx
  unfold Vm.pte
  rw [h.table_write ⟨d, hd, i, hi, ht⟩ hd']
  cases ht' : s.table d' i' with
  | none =>
    have hne : (d', i', j') ≠ (d, i, j) := by
      rintro ⟨⟩
      rw [ht] at ht'
      cases ht'
    rw [if_neg hne]
  | some t' =>
    by_cases heq : t' = t
    · subst heq
      obtain ⟨rfl, rfl⟩ := h.inj d hd i hi d' hd' i' hi' t' ht ht'
      by_cases hj : j' = j
      · simp [Vm.write, hj]
      · simp [Vm.write, hj]
    · have hne : (d', i', j') ≠ (d, i, j) := by
        rintro ⟨⟩
        rw [ht] at ht'
        exact heq (Option.some_inj.mp ht').symm
      rw [if_neg hne]
      simp [Vm.write, heq]

theorem of_table (hinv : S.Inv s'.pmm) (htable : ∀ d ∈ D, ∀ i < 1024, s'.table d i = s.table d i)
    (howned : ∀ q, q ∈ D ∨ IsTable D s q → q ∈ S.owned s'.pmm)
    (hdata : ∀ x ∈ slots D, ∀ p, frame (s'.pte x) = some p → IsData S D s' p)
    (hzero : ∀ x ∈ slots D, frame (s'.pte x) = none → s'.pte x = 0#32)
    (href : ∀ p ∈ S.owned s'.pmm, count D s' p ≤ A.get s'.pmm p) : s'.Wf S D where
  inv := hinv
  dir d hd := howned d (.inl hd)
  table d hd i hi t ht := by
    rw [htable d hd i hi] at ht
    exact ⟨howned t (.inr ⟨d, hd, i, hi, ht⟩), (h.table d hd i hi t ht).2⟩
  inj d hd i hi d' hd' i' hi' t ht ht' := by
    rw [htable d hd i hi] at ht
    rw [htable d' hd' i' hi'] at ht'
    exact h.inj d hd i hi d' hd' i' hi' t ht ht'
  data := hdata
  zero := hzero
  ref := href

end Vm.Wf

end ucore
