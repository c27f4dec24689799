import Mathlib.Data.Nat.Bitwise
import Mathlib.Order.Interval.Finset.Nat
import Mathlib.Tactic.Ring

open Finset

namespace dyadic

variable {j k i x y m : ℕ}

/-- The block of order `k` at `i`. -/
def block (k i : ℕ) : Finset ℕ := Ico i (i + 2 ^ k)

@[simp]
theorem mem_block : x ∈ block k i ↔ i ≤ x ∧ x < i + 2 ^ k := mem_Ico

theorem self_mem_block (k i : ℕ) : i ∈ block k i := by
  have : 0 < 2 ^ k := Nat.two_pow_pos k
  rw [mem_block]
  omega

@[simp]
theorem card_block (k i : ℕ) : (block k i).card = 2 ^ k := by simp [block]

theorem block_succ (k i : ℕ) : block (k + 1) i = block k i ∪ block k (i + 2 ^ k) := by
  ext x
  simp only [mem_block, mem_union, Nat.pow_succ]
  omega

theorem block_subset (h : j ≤ k) (i : ℕ) : block j i ⊆ block k i := by
  have : 2 ^ j ≤ 2 ^ k := Nat.pow_le_pow_right (by omega) h
  intro x hx
  rw [mem_block] at hx ⊢
  omega

theorem mem_block_mul : x ∈ block k (2 ^ k * m) ↔ x / 2 ^ k = m := by
  rw [mem_block, Nat.div_eq_iff (Nat.two_pow_pos k), Nat.mul_comm]
  have : 0 < 2 ^ k := Nat.two_pow_pos k
  omega

theorem block_subset_of_mem (hjk : j ≤ k) {a b : ℕ} (ha : 2 ^ j ∣ a) (hb : 2 ^ k ∣ b)
    (hxa : x ∈ block j a) (hxb : x ∈ block k b) : block j a ⊆ block k b := by
  obtain ⟨d, rfl⟩ := Nat.exists_eq_add_of_le hjk
  obtain ⟨m, rfl⟩ := ha
  obtain ⟨n, rfl⟩ := hb
  intro y hy
  rw [mem_block_mul] at *
  rw [pow_add, ← Nat.div_div_eq_div_mul] at *
  rw [hy, ← hxa, hxb]

theorem xor_of_dvd (h : 2 ^ (k + 1) ∣ i) : i ^^^ 2 ^ k = i + 2 ^ k := by
  obtain ⟨q, rfl⟩ := h
  have hlt : 2 ^ k < 2 ^ (k + 1) := Nat.pow_lt_pow_right (by omega) (by omega)
  have hzero : 2 ^ (k + 1) * q = 2 ^ (k + 1) * q + 0 := rfl
  apply Nat.eq_of_testBit_eq
  intro n
  rw [Nat.testBit_xor, Nat.testBit_two_pow_mul_add _ hlt, hzero,
    Nat.testBit_two_pow_mul_add _ (Nat.two_pow_pos _), Nat.testBit_two_pow]
  by_cases hn : n < k + 1
  · simp [hn]
  · simp [hn, show k ≠ n by omega]

theorem add_xor_of_dvd (h : 2 ^ (k + 1) ∣ i) : (i + 2 ^ k) ^^^ 2 ^ k = i := by
  rw [← xor_of_dvd h, Nat.xor_xor_cancel_right]

theorem and_add_of_dvd (h : 2 ^ (k + 1) ∣ i) : i &&& (i + 2 ^ k) = i := by
  obtain ⟨q, rfl⟩ := h
  have hlt : 2 ^ k < 2 ^ (k + 1) := Nat.pow_lt_pow_right (by omega) (by omega)
  apply Nat.eq_of_testBit_eq
  intro n
  have hmul : (2 ^ (k + 1) * q).testBit n =
      if n < k + 1 then false else q.testBit (n - (k + 1)) := by
    simpa using Nat.testBit_two_pow_mul_add q (Nat.two_pow_pos (k + 1)) n
  rw [Nat.testBit_and, Nat.testBit_two_pow_mul_add _ hlt, hmul]
  by_cases hn : n < k + 1
  · simp [hn]
  · simp [hn]

theorem half_cases (h : 2 ^ k ∣ i) : 2 ^ (k + 1) ∣ i ∨ ∃ a, 2 ^ (k + 1) ∣ a ∧ i = a + 2 ^ k := by
  obtain ⟨m, rfl⟩ := h
  obtain ⟨q, rfl | rfl⟩ := Nat.even_or_odd' m
  · exact .inl ⟨q, by ring⟩
  · exact .inr ⟨2 ^ (k + 1) * q, ⟨q, rfl⟩, by ring⟩

theorem and_two_pow_eq_zero_iff (h : 2 ^ k ∣ i) : i &&& 2 ^ k = 0 ↔ 2 ^ (k + 1) ∣ i := by
  obtain ⟨m, rfl⟩ := h
  rw [Nat.and_two_pow, Nat.testBit_eq_decide_div_mod_eq,
    Nat.mul_div_cancel_left _ (Nat.two_pow_pos k), pow_succ,
    Nat.mul_dvd_mul_iff_left (Nat.two_pow_pos k)]
  by_cases hm : m % 2 = 1
  · simp [hm, show ¬ 2 ∣ m by omega]
  · simp [hm, show 2 ∣ m by omega]

/-- The block of the next order around the block of order `k` at `i`. -/
def parent (k i : ℕ) : ℕ := i &&& (i ^^^ 2 ^ k)

theorem parent_of_dvd (h : 2 ^ (k + 1) ∣ i) : parent k i = i := by
  rw [parent, xor_of_dvd h, and_add_of_dvd h]

theorem parent_add_of_dvd (h : 2 ^ (k + 1) ∣ i) : parent k (i + 2 ^ k) = i := by
  rw [parent, add_xor_of_dvd h, Nat.and_comm, and_add_of_dvd h]

section
variable (h : 2 ^ k ∣ i)
include h

theorem dvd_parent : 2 ^ (k + 1) ∣ parent k i := by
  obtain hi | ⟨a, ha, rfl⟩ := half_cases h
  · rwa [parent_of_dvd hi]
  · rwa [parent_add_of_dvd ha]

theorem dvd_xor : 2 ^ k ∣ i ^^^ 2 ^ k := by
  obtain hi | ⟨a, ha, rfl⟩ := half_cases h
  · rw [xor_of_dvd hi]
    exact Nat.dvd_add h (Nat.dvd_refl _)
  · rw [add_xor_of_dvd ha]
    exact (Nat.pow_dvd_pow 2 (by omega)).trans ha

theorem block_parent : block (k + 1) (parent k i) = block k i ∪ block k (i ^^^ 2 ^ k) := by
  obtain hi | ⟨a, ha, rfl⟩ := half_cases h
  · rw [parent_of_dvd hi, xor_of_dvd hi, block_succ]
  · rw [parent_add_of_dvd ha, add_xor_of_dvd ha, block_succ, union_comm]

theorem disjoint_xor : Disjoint (block k i) (block k (i ^^^ 2 ^ k)) := by
  rw [disjoint_left]
  intro x hx hx'
  obtain hi | ⟨a, ha, rfl⟩ := half_cases h
  · rw [xor_of_dvd hi] at hx'
    simp only [mem_block] at hx hx'
    omega
  · rw [add_xor_of_dvd ha] at hx'
    simp only [mem_block] at hx hx'
    omega

end

/-- A family of aligned blocks of order at most `K`, pairwise disjoint, that covers `F`
exactly and never holds both halves of a block of order at most `K`. -/
structure Tiling (K : ℕ) (F : Set ℕ) (B : ℕ → ℕ → Prop) : Prop where
  order_le : ∀ {k i}, B k i → k ≤ K
  dvd : ∀ {k i}, B k i → 2 ^ k ∣ i
  mem : ∀ {k i x}, B k i → x ∈ block k i → x ∈ F
  cover : ∀ {x}, x ∈ F → ∃ k i, B k i ∧ x ∈ block k i
  disjoint : ∀ {k i k' i' x}, B k i → B k' i' → x ∈ block k i → x ∈ block k' i' →
    k = k' ∧ i = i'
  merged : ∀ {k i}, k < K → B k i → ¬ B k (i ^^^ 2 ^ k)

/-- An aligned block of order at most `K` inside `F` that is not part of a larger one. -/
structure Maximal (K : ℕ) (F : Set ℕ) (k i : ℕ) : Prop where
  order_le : k ≤ K
  dvd : 2 ^ k ∣ i
  mem : ∀ {x}, x ∈ block k i → x ∈ F
  largest : k < K → ∃ x ∈ block (k + 1) (parent k i), x ∉ F

namespace Tiling

variable {K : ℕ} {F : Set ℕ} {B B' : ℕ → ℕ → Prop}

section
variable (h : Tiling K F B)
include h

/-- If the partner of a block of the family is covered, a block of the family lies
strictly inside the partner. -/
theorem exists_smaller (hk : k < K) (hB : B k i) (hpart : ∀ x ∈ block k (i ^^^ 2 ^ k), x ∈ F) :
    ∀ x ∈ block k (i ^^^ 2 ^ k), ∃ j a, j < k ∧ B j a ∧ x ∈ block j a := by
  intro x hx
  obtain ⟨j, a, hj, hxa⟩ := h.cover (hpart x hx)
  by_cases hlt : j < k
  · exact ⟨j, a, hlt, hj, hxa⟩
  exfalso
  -- A block of order at least `k` that meets the partner is the partner or holds both halves.
  obtain rfl | hgt := Nat.eq_or_lt_of_le (Nat.le_of_not_lt hlt)
  · have hsub := block_subset_of_mem (le_refl k) (dvd_xor (h.dvd hB)) (h.dvd hj) hx hxa
    have hsub' := block_subset_of_mem (le_refl k) (h.dvd hj) (dvd_xor (h.dvd hB)) hxa hx
    have heq : a = i ^^^ 2 ^ k := by
      have h1 := hsub (self_mem_block k _)
      have h2 := hsub' (self_mem_block k _)
      rw [mem_block] at h1 h2
      omega
    exact h.merged hk hB (heq ▸ hj)
  · have hxp : x ∈ block (k + 1) (parent k i) := by
      rw [block_parent (h.dvd hB)]
      exact mem_union_right _ hx
    have hsub := block_subset_of_mem hgt (dvd_parent (h.dvd hB)) (h.dvd hj) hxp hxa
    have hi : i ∈ block j a := hsub (by
      rw [block_parent (h.dvd hB)]
      exact mem_union_left _ (self_mem_block k i))
    have := (h.disjoint hB hj (self_mem_block k i) hi).1
    omega

/-- By descent on the order: the partner of a block of the family is never covered. -/
theorem exists_not_mem (hk : k < K) (hB : B k i) : ∃ x ∈ block k (i ^^^ 2 ^ k), x ∉ F := by
  induction k using Nat.strong_induction_on generalizing i with
  | _ k ih =>
    by_contra hcov
    push Not at hcov
    obtain ⟨j, a, hj, hBa, hxa⟩ := h.exists_smaller hk hB hcov _ (self_mem_block k _)
    have hdvd := dvd_xor (h.dvd hB)
    have hin : block (j + 1) (parent j a) ⊆ block k (i ^^^ 2 ^ k) := by
      apply block_subset_of_mem hj (dvd_parent (h.dvd hBa)) hdvd _ (self_mem_block k _)
      rw [block_parent (h.dvd hBa)]
      exact mem_union_left _ hxa
    obtain ⟨x, hx, hxF⟩ := ih j hj (by omega) hBa
    apply hxF
    apply hcov x (hin _)
    rw [block_parent (h.dvd hBa)]
    exact mem_union_right _ hx

theorem maximal (hB : B k i) : Maximal K F k i where
  order_le := h.order_le hB
  dvd := h.dvd hB
  mem := h.mem hB
  largest hk := by
    obtain ⟨x, hx, hxF⟩ := h.exists_not_mem hk hB
    refine ⟨x, ?_, hxF⟩
    rw [block_parent (h.dvd hB)]
    exact mem_union_right _ hx

/-- The parent of a block of the family that lies strictly inside a maximal block would
be covered. -/
theorem of_maximal (hmax : Maximal K F k i) : B k i := by
  obtain ⟨j, a, hBa, hia⟩ := h.cover (hmax.mem (self_mem_block k i))
  obtain hlt | rfl | hgt := Nat.lt_trichotomy j k
  · obtain ⟨x, hx, hxF⟩ := (h.maximal hBa).largest (by have := hmax.order_le; omega)
    have hip : i ∈ block (j + 1) (parent j a) := by
      rw [block_parent (h.dvd hBa)]
      exact mem_union_left _ hia
    have hsub := block_subset_of_mem hlt (dvd_parent (h.dvd hBa)) hmax.dvd hip (self_mem_block k i)
    exact absurd (hmax.mem (hsub hx)) hxF
  · have hsub := block_subset_of_mem (le_refl j) (h.dvd hBa) hmax.dvd hia (self_mem_block j i)
    have hai := hsub (self_mem_block j a)
    rw [mem_block] at hai hia
    obtain rfl : a = i := by omega
    exact hBa
  · obtain ⟨x, hx, hxF⟩ := hmax.largest (by have := h.order_le hBa; omega)
    have hip : i ∈ block (k + 1) (parent k i) := by
      rw [block_parent hmax.dvd]
      exact mem_union_left _ (self_mem_block k i)
    have hsub := block_subset_of_mem hgt (dvd_parent hmax.dvd) (h.dvd hBa) hip hia
    exact absurd (h.mem hBa (hsub hx)) hxF

/-- The family consists of the maximal blocks of the covered set, so the set determines it. -/
theorem iff_maximal : B k i ↔ Maximal K F k i := ⟨h.maximal, h.of_maximal⟩

theorem iff_of_tiling (h' : Tiling K F B') : B k i ↔ B' k i :=
  h.iff_maximal.trans h'.iff_maximal.symm

end

theorem empty (K : ℕ) : Tiling K ∅ fun _ _ => False where
  order_le h := h.elim
  dvd h := h.elim
  mem h := h.elim
  cover h := h.elim
  disjoint h := h.elim
  merged _ h := h.elim

theorem insert (h : Tiling K F B) (hk : k ≤ K) (hi : 2 ^ k ∣ i) (hF : ∀ x ∈ block k i, x ∉ F)
    (hpart : k < K → ¬ B k (i ^^^ 2 ^ k)) :
    Tiling K (F ∪ block k i) fun k' i' => (k' = k ∧ i' = i) ∨ B k' i' where
  order_le := by
    rintro _ _ (⟨rfl, rfl⟩ | hB)
    · exact hk
    · exact h.order_le hB
  dvd := by
    rintro _ _ (⟨rfl, rfl⟩ | hB)
    · exact hi
    · exact h.dvd hB
  mem := by
    rintro _ _ x (⟨rfl, rfl⟩ | hB) hx
    · exact .inr hx
    · exact .inl (h.mem hB hx)
  cover := by
    rintro x (hx | hx)
    · obtain ⟨j, a, hB, hxa⟩ := h.cover hx
      exact ⟨j, a, .inr hB, hxa⟩
    · exact ⟨k, i, .inl ⟨rfl, rfl⟩, hx⟩
  disjoint := by
    rintro _ _ _ _ x (⟨rfl, rfl⟩ | hB) (⟨rfl, rfl⟩ | hB') hx hx'
    · exact ⟨rfl, rfl⟩
    · exact absurd (h.mem hB' hx') (hF x hx)
    · exact absurd (h.mem hB hx) (hF x hx')
    · exact h.disjoint hB hB' hx hx'
  merged := by
    rintro j a hj (⟨rfl, rfl⟩ | hB) (⟨hjk, heq⟩ | hB')
    · have hself := disjoint_left.mp (disjoint_xor hi) (self_mem_block j a)
      rw [heq] at hself
      exact hself (self_mem_block j a)
    · exact hpart hj hB'
    · subst hjk
      obtain rfl : a = i ^^^ 2 ^ j := by rw [← heq, Nat.xor_xor_cancel_right]
      exact hpart hj hB
    · exact h.merged hj hB hB'

theorem erase (h : Tiling K F B) (hB : B k i) :
    Tiling K (F \ block k i) fun k' i' => ¬ (k' = k ∧ i' = i) ∧ B k' i' where
  order_le h' := h.order_le h'.2
  dvd h' := h.dvd h'.2
  mem h' hx := ⟨h.mem h'.2 hx, fun hxi => h'.1 (h.disjoint h'.2 hB hx hxi)⟩
  cover := by
    rintro x ⟨hx, hxi⟩
    obtain ⟨j, a, hB', hxa⟩ := h.cover hx
    refine ⟨j, a, ⟨?_, hB'⟩, hxa⟩
    rintro ⟨rfl, rfl⟩
    exact hxi hxa
  disjoint h1 h2 := h.disjoint h1.2 h2.2
  merged hj h1 h2 := h.merged hj h1.2 h2.2

end Tiling

end dyadic
