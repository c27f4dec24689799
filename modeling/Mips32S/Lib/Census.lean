import Mathlib.Algebra.BigOperators.Group.Finset.Piecewise

open Finset

namespace census

variable {ι : Type} [DecidableEq ι] {S : Finset ι} {P Q : ι → Prop} [DecidablePred P]
  [DecidablePred Q] {x : ι}

theorem card_change (hx : x ∈ S) (h : ∀ y ∈ S, y ≠ x → (Q y ↔ P y)) :
    (S.filter Q).card + (if P x then 1 else 0) = (S.filter P).card + if Q x then 1 else 0 := by
  have hrest : ∑ y ∈ S.erase x, (if Q y then 1 else 0) = ∑ y ∈ S.erase x, if P y then 1 else 0 :=
    sum_congr rfl fun y hy =>
      if_congr (h y (mem_of_mem_erase hy) (ne_of_mem_erase hy)) rfl rfl
  simp only [card_filter]
  rw [← add_sum_erase S _ hx, ← add_sum_erase S _ hx, hrest]
  omega

theorem card_insert (hx : x ∉ S) (h : ∀ y ∈ S, Q y ↔ P y) :
    ((insert x S).filter Q).card = (S.filter P).card + if Q x then 1 else 0 := by
  rw [filter_insert, filter_congr h]
  split_ifs with hq
  · exact card_insert_of_notMem fun hmem => hx (mem_of_mem_filter x hmem)
  · rfl

theorem card_erase (hx : x ∈ S) :
    ((S.erase x).filter P).card + (if P x then 1 else 0) = (S.filter P).card := by
  have heq : S = insert x (S.erase x) := (insert_erase hx).symm
  conv_rhs => rw [heq]
  exact (card_insert (notMem_erase x S) fun _ _ => Iff.rfl).symm

theorem filter_erase (hx : ¬P x) : (S.erase x).filter P = S.filter P := by
  rw [Finset.filter_erase, erase_eq_of_notMem]
  simp [hx]

end census
