import Mathlib.Data.Finset.Card

open Function Finset

namespace ownership

variable {ρ : Type}

structure Store (ρ : Type) where
  slot : ρ → ℕ
  free : Finset ℕ

namespace Store

/-- No block in a slot is free, and none is in two slots. -/
structure Inv (s : Store ρ) : Prop where
  zero : 0 ∉ s.free
  used : ∀ r, s.slot r ∉ s.free
  once : ∀ r r', s.slot r = s.slot r' → s.slot r ≠ 0 → r = r'

/-- A block that is neither free nor in a slot. -/
def Lost (s : Store ρ) (b : ℕ) : Prop := b ≠ 0 ∧ b ∉ s.free ∧ ∀ r, s.slot r ≠ b

variable [DecidableEq ρ]

def take (s : Store ρ) (r : ρ) (b : ℕ) : Store ρ := ⟨update s.slot r b, s.free.erase b⟩

def drop (s : Store ρ) (r : ρ) : Store ρ := ⟨update s.slot r 0, insert (s.slot r) s.free⟩

/-- A free block goes into an empty slot, or a slot gives its block back. -/
inductive Step (s : Store ρ) : Store ρ → Prop
  | take {r : ρ} {b : ℕ} : s.slot r = 0 → b ∈ s.free → Step s (s.take r b)
  | drop {r : ρ} : s.slot r ≠ 0 → Step s (s.drop r)

def Steps : Store ρ → Store ρ → Prop := Relation.ReflTransGen Step

variable {s s' : Store ρ} {r : ρ} {b : ℕ}
omit [DecidableEq ρ] in
theorem Inv.erase (h : s.Inv) (b : ℕ) : Inv ⟨s.slot, s.free.erase b⟩ :=
  ⟨fun hmem => h.zero (mem_of_mem_erase hmem),
    fun r hmem => h.used r (mem_of_mem_erase hmem), h.once⟩

omit [DecidableEq ρ] in
theorem Inv.insert (h : s.Inv) (hb : s.Lost b) : Inv ⟨s.slot, insert b s.free⟩ := by
  refine ⟨fun hmem => ?_, fun r hmem => ?_, h.once⟩
  · rcases mem_insert.mp hmem with heq | hmem'
    · exact hb.1 heq.symm
    · exact h.zero hmem'
  · rcases mem_insert.mp hmem with heq | hmem'
    · exact hb.2.2 r heq
    · exact h.used r hmem'

theorem Inv.set (h : s.Inv) (r : ρ) (hb : b = 0 ∨ s.Lost b) : Inv ⟨update s.slot r b, s.free⟩ := by
  refine ⟨h.zero, fun r' hmem => ?_, fun r1 r2 heq hne0 => ?_⟩
  · dsimp only at hmem
    rcases eq_or_ne r' r with rfl | hr
    · rw [update_self] at hmem
      rcases hb with rfl | hlost
      · exact h.zero hmem
      · exact hlost.2.1 hmem
    · rw [update_of_ne hr] at hmem
      exact h.used r' hmem
  · have hnew : ∀ r', b ≠ 0 → s.slot r' ≠ b := fun r' hne => (hb.resolve_left hne).2.2 r'
    dsimp only at heq hne0
    rcases eq_or_ne r1 r with rfl | hr1
    · rw [update_self] at heq hne0
      rcases eq_or_ne r2 r1 with rfl | hr2
      · rfl
      · rw [update_of_ne hr2] at heq
        exact absurd heq.symm (hnew r2 hne0)
    · rw [update_of_ne hr1] at heq hne0
      rcases eq_or_ne r2 r with rfl | hr2
      · rw [update_self] at heq
        exact absurd heq (hnew r1 (heq ▸ hne0))
      · rw [update_of_ne hr2] at heq
        exact h.once r1 r2 heq hne0

omit [DecidableEq ρ] in
theorem Inv.erase_lost (h : s.Inv) (hb : b ∈ s.free) : Lost ⟨s.slot, s.free.erase b⟩ b :=
  ⟨fun heq => h.zero (heq ▸ hb), notMem_erase b _, fun r heq => h.used r (heq ▸ hb)⟩

theorem Inv.set_zero_lost (h : s.Inv) (hr : s.slot r ≠ 0) :
    Lost ⟨update s.slot r 0, s.free⟩ (s.slot r) := by
  refine ⟨hr, h.used r, fun r' heq => ?_⟩
  dsimp only at heq
  rcases eq_or_ne r' r with rfl | hr'
  · rw [update_self] at heq
    exact hr heq.symm
  · rw [update_of_ne hr'] at heq
    exact hr' (h.once r' r heq (heq ▸ hr))

theorem Step.lost (hstep : s.Step s') (hlost : s'.Lost b) : s.Lost b := by
  obtain ⟨hzero, hfree, hslot⟩ := hlost
  cases hstep with
  | @take r c hr hc =>
    have hself : (s.take r c).slot r = c := update_self _ _ _
    have hother : ∀ r' ≠ r, (s.take r c).slot r' = s.slot r' := fun r' hr' =>
      update_of_ne hr' _ _
    have hne : b ≠ c := fun heq => hslot r (hself.trans heq.symm)
    refine ⟨hzero, fun hmem => hfree (mem_erase.mpr ⟨hne, hmem⟩), fun r' heq => ?_⟩
    rcases eq_or_ne r' r with rfl | hr'
    · exact hzero (heq.symm.trans hr)
    · exact hslot r' ((hother r' hr').trans heq)
  | @drop r hr =>
    refine ⟨hzero, fun hmem => hfree (mem_insert_of_mem hmem), fun r' heq => ?_⟩
    rcases eq_or_ne r' r with rfl | hr'
    · exact hfree (heq ▸ mem_insert_self _ _)
    · have hother : (s.drop r).slot r' = s.slot r' := update_of_ne hr' _ _
      exact hslot r' (hother.trans heq)

theorem Steps.lost (hsteps : s.Steps s') (hlost : s'.Lost b) : s.Lost b := by
  induction hsteps with
  | refl => exact hlost
  | tail _ hstep ih => exact ih (hstep.lost hlost)

end Store

end ownership
