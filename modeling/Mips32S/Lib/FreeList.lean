import Mathlib.Data.List.Range

open Function List

namespace freelist

/-- Following `next` from `start` one visits the cells of the list and then comes to `last`. -/
def Chain (next : ℕ → ℕ) (last : ℕ) : ℕ → List ℕ → Prop
  | start, [] => start = last
  | start, x :: l => start = x ∧ Chain next last (next x) l

variable {next next' : ℕ → ℕ} {last start x n : ℕ} {l : List ℕ}

section
variable (h : Chain next last start l)
include h

theorem Chain.congr (heq : ∀ y ∈ l, next' y = next y) : Chain next' last start l := by
  induction l generalizing start with
  | nil => exact h
  | cons y l ih =>
    obtain ⟨hstart, hrest⟩ := h
    refine ⟨hstart, ?_⟩
    rw [heq y mem_cons_self]
    exact ih hrest fun z hz => heq z (mem_cons_of_mem y hz)

theorem Chain.push (hx : x ∉ l) : Chain (update next x start) last x (x :: l) := by
  refine ⟨rfl, ?_⟩
  rw [update_self]
  exact h.congr fun y hy => update_of_ne (ne_of_mem_of_not_mem hy hx) _ _

theorem Chain.eq_last_iff (hlast : last ∉ l) : start = last ↔ l = [] := by
  cases l with
  | nil => exact iff_of_true h rfl
  | cons y l =>
    refine iff_of_false (fun heq => hlast ?_) (cons_ne_nil _ _)
    rw [← heq, h.1]
    exact mem_cons_self

end

theorem Chain.range (hnext : ∀ i, i + 1 < n → next i = i + 1) (hlast : next (n - 1) = last)
    (hn : 0 < n) : Chain next last 0 (range n) := by
  have hfrom : ∀ k i, i + k = n → 0 < k → Chain next last i (range' i k) := by
    intro k
    induction k with
    | zero => exact fun i _ hpos => absurd hpos (Nat.lt_irrefl 0)
    | succ k ih =>
      intro i hi _
      refine ⟨rfl, ?_⟩
      rcases Nat.eq_zero_or_pos k with rfl | hk
      · rwa [show i = n - 1 by omega]
      · rw [hnext i (by omega)]
        exact ih (i + 1) (by omega) hk
  rw [range_eq_range']
  exact hfrom n 0 (Nat.zero_add n) hn

end freelist
